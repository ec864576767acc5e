import DirWatch.Proofs.Reconcile.Parents
import DirWatch.Proofs.Settings.Exclusion

namespace DirWatch

-- What is asked of a path depends on its components alone, and so for the directories above it.
structure Scope.Admits (scope : Scope) (p : Path) : Prop where
  named : ∃ names : List Name, names ≠ [] ∧ p.components = names.map .name
  kept : ∀ above : Path, above.components ≠ [] → above.components <+: p.components →
    scope.excludes.excludes above = false
  near : scope.recursive = false → p.components.length = 1

namespace Scope.Admits

variable {scope : Scope} {p q : Path} {names : List Name}

theorem congr (admitted : scope.Admits p) (same : q.components = p.components) : scope.Admits q := by
  constructor
  · rw [same]
    exact admitted.named
  · rw [same]
    exact admitted.kept
  · rw [same]
    exact admitted.near

theorem of_shows (shown : scope.shows names = true) : scope.Admits (.ofNames names) := by
  obtain ⟨some, kept, deep⟩ := Scope.shows_iff.mp shown
  refine ⟨⟨names, some, Path.components_ofNames names⟩, fun above top up => ?_, fun shallow => ?_⟩
  · rw [Path.components_ofNames] at up
    obtain ⟨rest, parts⟩ := up
    obtain ⟨front, back, rfl, same, _⟩ := List.map_eq_append_iff.mp parts.symm
    have head : front ≠ [] := fun empty => top (by rw [← same, empty, List.map_nil])
    rw [Excludes.excludes_congr (same.symm.trans (Path.components_ofNames front).symm)]
    exact Reconcile.excluded_eq_false_iff.mp kept front head (List.prefix_append front back)
  · rw [Path.components_ofNames, List.length_map]
    exact deep.resolve_left (by simp [shallow])

theorem shows (admitted : scope.Admits (.ofNames names)) : scope.shows names = true := by
  obtain ⟨⟨other, some, parts⟩, kept, near⟩ := admitted
  rw [Path.components_ofNames] at parts
  refine Scope.shows_iff.mpr ⟨fun top => ?_, ?_, ?_⟩
  · rw [top] at parts
    exact some (List.map_eq_nil_iff.mp parts.symm)
  · refine Reconcile.excluded_eq_false_iff.mpr fun head nonempty up => kept _ ?_ ?_
    · rw [Path.components_ofNames]
      exact fun empty => nonempty (List.map_eq_nil_iff.mp empty)
    · rw [Path.components_ofNames, Path.components_ofNames]
      exact up.map _
  · cases deep : scope.recursive with
    | true => exact .inl rfl
    | false =>
      right
      simpa [Path.components_ofNames] using near deep

end Scope.Admits

theorem Forest.admits {scope : Scope} {names : List Name} {es : List Entry} (forest : Forest scope names none es)
    (kept : Reconcile.excluded scope names = false) (deep : names = [] ∨ scope.recursive = true) :
    ∀ e ∈ es, scope.Admits e.path := by
  intro e met
  obtain ⟨more, path, shown⟩ := forest.shown kept deep met
  exact path ▸ .of_shows shown

namespace Snapshot

variable {scope : Scope} {s : Snapshot} {e : Entry} {es olds news : List Entry} {cs : List Change}

def Within (scope : Scope) (s : Snapshot) : Prop := ∀ p e, s.get? p = some e → scope.Admits p

theorem within_empty (root : Path) : (empty root).Within scope := by
  intro p e found
  cases found

theorem Within.insert (within : s.Within scope) (admitted : scope.Admits e.path) :
    (s.insert e).Within scope := by
  intro p k found
  by_cases same : p.components = e.path.components
  · exact admitted.congr same
  · rw [get?_insert_other same] at found
    exact within p k found

theorem Within.insertAll (within : s.Within scope) (admitted : ∀ e ∈ es, scope.Admits e.path) :
    (s.insertAll es).Within scope := by
  induction es generalizing s with
  | nil => exact within
  | cons e rest ih =>
    have first := within.insert (admitted e List.mem_cons_self)
    exact ih first fun k found => admitted k (List.mem_cons_of_mem _ found)

theorem Within.removeSubtree (within : s.Within scope) (dir : Path) : (s.removeSubtree dir).Within scope :=
  fun p e found => within p e (get?_of_removeSubtree found)

theorem Within.replay {c : Change} (within : s.Within scope) (admitted : scope.Admits c.path) :
    (s.replay c).Within scope := by
  unfold Snapshot.replay
  split
  · exact within.insert admitted
  · exact within.insert admitted
  · exact fun p e found => within p e (get?_of_remove found)

theorem Within.replayAll (within : s.Within scope) (admitted : ∀ c ∈ cs, scope.Admits c.path) :
    (s.replayAll cs).Within scope := by
  induction cs generalizing s with
  | nil => exact within
  | cons c rest ih =>
    have first := within.replay (admitted c List.mem_cons_self)
    exact ih first fun k told => admitted k (List.mem_cons_of_mem _ told)

theorem Within.entries (within : s.Within scope) (keyed : s.Keyed) : ∀ e ∈ s.entries, scope.Admits e.path :=
  fun e listed => within e.path e (keyed.mem_entries_iff.mp listed)

theorem Within.subtree (within : s.Within scope) (keyed : s.Keyed) (dir : Path) :
    ∀ c ∈ (s.subtree dir).map Change.removed, scope.Admits c.path := by
  intro c told
  obtain ⟨e, listed, rfl⟩ := List.mem_map.mp told
  exact within e.path e (keyed.mem_subtree_iff.mp listed).1

theorem admits_added (admitted : ∀ e ∈ es, scope.Admits e.path) :
    ∀ c ∈ es.map Change.added, scope.Admits c.path := by
  intro c told
  obtain ⟨e, listed, rfl⟩ := List.mem_map.mp told
  exact admitted e listed

theorem admits_merge (old : ∀ o ∈ olds, scope.Admits o.path) (new : ∀ n ∈ news, scope.Admits n.path) :
    ∀ c ∈ merge olds news, scope.Admits c.path := by
  intro c told
  rcases merge_path told with ⟨o, listed, same⟩ | ⟨n, listed, same⟩
  · exact (old o listed).congr same
  · exact (new n listed).congr same

end Snapshot

namespace Reconcile

open Snapshot

variable {d : Disk} {scope : Scope} {s : Snapshot} {root : Path} {a p : List Name} {fresh : Entry}
  {step : Step} {call : Call} {outcome : Outcome}

def Confined (scope : Scope) (step : Step) : Prop :=
  step.1.Within scope ∧ ∀ c ∈ step.2, scope.Admits c.path

theorem admits_look (shown : scope.shows a = true) (looked : look d scope s a = some fresh) :
    scope.Admits fresh.path := look_path looked ▸ .of_shows shown

theorem admits_grown (nonempty : root.bytes ≠ []) (shown : scope.shows a = true)
    (looked : look d scope s a = some fresh) : ∀ e ∈ grown d scope root fresh, scope.Admits e.path := by
  intro e met
  rcases List.mem_cons.mp met with rfl | met
  · exact admits_look shown looked
  · have deep := (contents_dir (List.ne_nil_of_mem met)).2
    have kept := (Scope.shows_iff.mp shown).2.1
    exact (contents_forest nonempty (look_path looked)).admits kept (.inr deep) e met

theorem confined_refresh (tracked : s.Tracked root) (within : s.Within scope) (shown : scope.shows p = true)
    (deep : scope.recursive = true) : Confined scope (refresh d scope s (.ofNames p)) := by
  cases scanned : d.entriesBelow scope s.root (s.root.join (.ofNames p)) with
  | error e =>
    rw [refresh_error scanned]
    exact ⟨within, by simp⟩
  | ok es =>
    have forest : Forest scope p none es :=
      Disk.entriesBelow_forest (tracked.rooted ▸ tracked.nonempty) scanned
    have met := forest.admits (Scope.shows_iff.mp shown).2.1 (.inr deep)
    have told : ∀ c ∈ corrections s p es, scope.Admits c.path :=
      admits_merge
        (fun o old => within o.path o ((mem_beforehand tracked.keyed).mp old).1)
        (fun n new => met n ((mem_afterwards forest).mp new))
    rw [refresh_ok scanned]
    exact ⟨within.replayAll told, told⟩

-- No outcome of a hint leaves the scope: only what the scope shows is looked at, and a scan below it leaves
-- out what the scope leaves out.
theorem Effect.confined (tracked : s.Tracked root) (within : s.Within scope) (effect : Effect d scope s step) :
    Confined scope step := by
  have nonempty : s.root.bytes ≠ [] := tracked.rooted ▸ tracked.nonempty
  cases effect with
  | idle => exact ⟨within, by simp⟩
  | grow shown looked =>
    have new := admits_grown nonempty shown looked
    exact ⟨within.insertAll new, admits_added new⟩
  | drop => exact ⟨within.removeSubtree _, within.subtree tracked.keyed _⟩
  | replace shown _ looked =>
    have new := admits_grown nonempty shown looked
    refine ⟨(within.removeSubtree _).insertAll new, fun c told => ?_⟩
    rcases List.mem_append.mp told with gone | come
    · exact within.subtree tracked.keyed _ c gone
    · exact admits_added new c come
  | update shown _ looked =>
    have here := admits_look shown looked
    refine ⟨within.insert here, fun c told => ?_⟩
    rw [List.mem_singleton.mp told]
    exact here
  | touch shown _ looked => exact ⟨within.insert (admits_look shown looked), by simp⟩
  | refresh shown seen looked _ _ deep =>
    have inserted := tracked_insert tracked (look_path looked) seen
    exact confined_refresh inserted (within.insert (admits_look shown looked)) shown deep

theorem applyAll_confined (tracked : s.Tracked root) (within : s.Within scope) (records : List Record) :
    Confined scope (applyAll d scope s records) := by
  induction records generalizing s with
  | nil => exact ⟨within, by simp [applyAll]⟩
  | cons r rest ih =>
    rcases names_cases r with other | ⟨names, below, path⟩
    · rw [applyAll_cons_other other]
      exact ih tracked within
    · rw [applyAll_cons below path]
      have effect : Effect d scope s (apply d scope s r.action names) :=
        apply_effect (tracked.rooted ▸ tracked.nonempty) tracked.closed below r.action
      obtain ⟨kept, told⟩ := effect.confined tracked within
      obtain ⟨last, later⟩ := ih (effect.replays tracked).2 kept
      refine ⟨last, fun c member => ?_⟩
      exact (List.mem_append.mp member).elim (told c) (later c)

theorem confined_rootLost {changes : List Change} (tracked : s.Tracked root)
    (confined : Confined scope (s, changes)) :
    Confined scope ((rootLost s changes).snapshot, (rootLost s changes).changes) := by
  obtain ⟨within, told⟩ := confined
  refine ⟨within.removeSubtree _, fun c member => ?_⟩
  exact (List.mem_append.mp member).elim (told c) (within.subtree tracked.keyed _ c)

theorem within_scan (scanned : scan d scope root = .ok s) : s.Within scope := by
  obtain ⟨_, es, _, forest, rfl⟩ := scan_forest scanned
  exact (within_empty root).insertAll (forest.admits rfl (.inl rfl))

theorem confined_batch (tracked : s.Tracked root) (within : s.Within scope) (records : List Record) :
    Confined scope ((batch d scope s records).snapshot, (batch d scope s records).changes) := by
  have followed : Confined scope (applyAll d scope s records) := applyAll_confined tracked within records
  have kept : (applyAll d scope s records).1.Tracked root := (applyAll_replays tracked records).2
  unfold batch
  dsimp only
  split
  · exact confined_rootLost kept followed
  · exact followed

theorem confined_rescan (tracked : s.Tracked root) (within : s.Within scope)
    (ended : rescan d scope s = .ok outcome) : Confined scope (outcome.snapshot, outcome.changes) := by
  have idle : Confined scope (s, []) := ⟨within, by simp⟩
  unfold rescan at ended
  split at ended
  · rename_i fresh scanned
    cases ended
    rw [tracked.rooted] at scanned
    have found := within_scan scanned
    exact ⟨found, admits_merge (within.entries tracked.keyed) (found.entries (tracked_scan scanned).keyed)⟩
  · cases ended
    exact confined_rootLost tracked idle
  · cases ended
    exact confined_rootLost tracked idle
  · cases ended

theorem Call.run_confined (tracked : s.Tracked root) (within : s.Within scope)
    (ended : call.run d scope s = .ok outcome) : Confined scope (outcome.snapshot, outcome.changes) := by
  cases call with
  | batch records =>
    cases ended
    exact confined_batch tracked within records
  | overflow => exact confined_rescan tracked within ended

theorem within_of_reachable (reached : Reachable scope root s) : s.Within scope := by
  induction reached with
  | scanned found => exact within_scan found
  | @called s d call before ih =>
    unfold Call.after
    cases ended : call.run d scope s with
    | ok outcome => exact (Call.run_confined (tracked_of_reachable before) ih ended).1
    | error e => exact ih

-- Neither what is tracked nor what is told of ever leaves the scope of the watch.
theorem paths_stay_within_scope (reached : Reachable scope root s) :
    (∀ item ∈ s.items, scope.Admits item.key ∧ scope.Admits item.entry.path) ∧
      ∀ (d : Disk) (call : Call) (outcome : Outcome), call.run d scope s = .ok outcome →
        ∀ c ∈ outcome.changes, scope.Admits c.path := by
  have tracked := tracked_of_reachable reached
  have within := within_of_reachable reached
  refine ⟨fun item listed => ?_, fun d call outcome ended => ?_⟩
  · have here := within item.key item.entry (get?_eq_some_iff.mpr ⟨item, listed, rfl, rfl⟩)
    exact ⟨here, here.congr (tracked.keyed.of_item listed)⟩
  · exact (Call.run_confined tracked within ended).2

-- No record names the file in the directory that took a file's place, and it is told of.
theorem paths_stay_within_scope_grown :
    scan Sample.filled Sample.whole Sample.watched = .ok Sample.held ∧
      ∃ outcome, (Call.batch [⟨.modified, .ofName Sample.name⟩]).run Sample.nested Sample.whole Sample.held =
        .ok outcome ∧ (∃ c ∈ outcome.changes, c.path = Sample.beneath) ∧
          ∀ c ∈ outcome.changes, Sample.whole.Admits c.path := by
  have scanned : scan Sample.filled Sample.whole Sample.watched = .ok Sample.held := rfl
  have within := (paths_stay_within_scope (.scanned scanned)).2 Sample.nested
    (.batch [⟨.modified, .ofName Sample.name⟩]) _ rfl
  exact ⟨scanned, _, rfl, ⟨_, List.mem_cons_of_mem _ (List.mem_cons_of_mem _ List.mem_cons_self), rfl⟩, within⟩

end Reconcile

end DirWatch
