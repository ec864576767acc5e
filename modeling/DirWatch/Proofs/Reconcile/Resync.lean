import DirWatch.Proofs.Reconcile.Order
import DirWatch.Proofs.Reconcile.Subtree

namespace DirWatch

namespace Snapshot

variable {s : Snapshot} {p q : List Name} {e : Entry} {dir path : Path}

def under (s : Snapshot) (dir : Path) : Snapshot := (empty s.root).insertAll (s.below dir)

theorem keyed_under : (s.under dir).Keyed := (keyed_empty s.root).insertAll

section Keyed

variable (keyed : s.Keyed)
include keyed

theorem get?_under : (s.under dir).get? path = some e ↔ s.get? path = some e ∧
    dir.components <+: path.components ∧ dir.components ≠ path.components := by
  constructor
  · intro found
    have listed : e ∈ (s.under dir).entries := keyed_under.mem_entries found
    have same : e.path.components = path.components := keyed_under path e found
    unfold under at listed
    rw [mem_entries_insertAll keyed.sorted_below.apart, keyed.mem_below_iff] at listed
    rwa [get?_congr same, same] at listed
  · intro given
    obtain ⟨found, up, proper⟩ := given
    have same : e.path.components = path.components := keyed path e found
    refine get?_insertAll_mem keyed.sorted_below.apart (keyed.mem_below_iff.mpr ⟨?_, ?_, ?_⟩) same.symm
    · rwa [get?_congr same]
    · rwa [same]
    · rwa [same]

theorem at?_under : (s.under (.ofNames p)).at? q = some e ↔ s.at? q = some e ∧ p <+: q ∧ p ≠ q := by
  unfold at?
  rw [get?_under keyed, Ne, Path.components_ofNames_inj, Path.components_ofNames, Path.components_ofNames,
    List.prefix_map_iff_of_injective Component.name_injective]

theorem at?_under_below (up : p <+: q) (proper : p ≠ q) : (s.under (.ofNames p)).at? q = s.at? q := by
  apply Option.ext
  intro e
  rw [at?_under keyed]
  exact and_iff_left ⟨up, proper⟩

theorem at?_under_beside (beside : ¬(p <+: q ∧ p ≠ q)) : (s.under (.ofNames p)).at? q = none := by
  by_contra present
  obtain ⟨e, found⟩ := Option.ne_none_iff_exists'.mp present
  exact beside ((at?_under keyed).mp found).2

theorem Named.under (named : s.Named) (dir : Path) : (s.under dir).Named :=
  fun path e found => named path e ((get?_under keyed).mp found).1

theorem under_insert (here : e.path.components = dir.components) : (s.insert e).under dir = s.under dir := by
  have same : (s.insert e).below dir = s.below dir := by
    refine Sorted.ext keyed.insert.sorted_below keyed.sorted_below fun k => ?_
    rw [keyed.insert.mem_below_iff, keyed.mem_below_iff]
    refine and_congr_left fun lower => ?_
    rw [get?_insert_other]
    exact fun top => lower.2 (here.symm.trans top.symm)
  unfold Snapshot.under
  rw [same]
  rfl

end Keyed

end Snapshot

namespace Reconcile

open Snapshot

variable {d : Disk} {scope : Scope} {s : Snapshot} {root : Path} {p q names : List Name} {known fresh : Entry}
  {es : List Entry} {r : Record}

theorem corrections_eq : corrections s p es = (s.under (.ofNames p)).diff ((empty s.root).insertAll es) := rfl

section Refreshed

variable (tracked : s.Tracked root) (forest : Forest scope p none es)
include tracked forest

theorem matches_refreshed :
    ((s.replayAll (corrections s p es)).under (.ofNames p)).Matches ((empty root).insertAll es) := by
  have keyed : (s.replayAll (corrections s p es)).Keyed := tracked.keyed.replayAll
  have named := named_refresh tracked.keyed forest tracked.named
  have paths : ∀ e ∈ es, ∃ more, more ≠ [] ∧ e.path = .ofNames (p ++ more) := by
    intro e met
    obtain ⟨n, more, _, path⟩ := forest.path_below met
    exact ⟨n :: more, by simp, path⟩
  have scanned : ((empty root).insertAll es).Named := by
    refine (named_empty root).insertAll fun e met => ?_
    obtain ⟨more, some, path⟩ := paths e met
    exact ⟨p ++ more, by simp [some], path⟩
  have missed (q : List Name) (absent : ∀ e ∈ es, e.path ≠ .ofNames q) : ((empty root).insertAll es).at? q = none := by
    refine at?_insertAll_other fun e met => ?_
    obtain ⟨more, _, path⟩ := paths e met
    exact ⟨p ++ more, path, fun same => absent e met (same ▸ path)⟩
  refine matches_of_at? (named.under keyed _) scanned fun q => ?_
  by_cases below : p <+: q ∧ p ≠ q
  · rw [at?_under_below keyed below.1 below.2]
    rcases at?_refresh_inside tracked.keyed forest below.1 below.2 with ⟨n, met, path, stands⟩ | ⟨absent, gone⟩
    · rw [at?_insertAll_mem forest.apart met path]
      rcases stands with new | ⟨kept, o, old, alike⟩
      · rw [new]
        exact .rfl
      · rw [kept, old]
        exact alike
    · rw [gone, missed q absent]
      exact .rfl
  · rw [at?_under_beside keyed below, missed q]
    · exact .rfl
    · intro e met here
      obtain ⟨more, some, path⟩ := paths e met
      obtain rfl := Path.ofNames_injective (here.symm.trans path)
      exact below ⟨List.prefix_append p more, by simp [some]⟩

end Refreshed

-- From `s`, a step has brought what lies below the directory at `p` in line with `current`. The changes of the step turn
-- what was known there into what is known now; the directory itself is `fresh`, and the rest is as it was.
structure Resynced (s : Snapshot) (p : List Name) (fresh : Entry) (current : Snapshot) (step : Step) : Prop where
  holds : (step.1.under (.ofNames p)).agrees current = true
  told : step.2 = (s.under (.ofNames p)).diff current
  accepts : (s.under (.ofNames p)).Accepts step.2
  leads : ((s.under (.ofNames p)).replayAll step.2).agrees (step.1.under (.ofNames p)) = true
  itself : step.1.at? p = some fresh
  rest : ∀ q, ¬p <+: q → step.1.at? q = s.at? q

theorem resynced_refresh (tracked : s.Tracked root) (found : s.at? p = some known) (path : fresh.path = .ofNames p)
    (entries : d.entriesBelow scope root (root.join (.ofNames p)) = .ok es) :
    Resynced s p fresh ((empty root).insertAll es) (refresh d scope (s.insert fresh) (.ofNames p)) := by
  have forest : Forest scope p none es := Disk.entriesBelow_forest tracked.nonempty entries
  have inserted : (s.insert fresh).Tracked root := tracked_insert tracked path found
  have current : ((empty root).insertAll es).Keyed := (keyed_empty root).insertAll
  have told : corrections (s.insert fresh) p es = (s.under (.ofNames p)).diff ((empty root).insertAll es) := by
    rw [corrections_eq, under_insert tracked.keyed (by rw [path]), inserted.rooted]
  have now := matches_refreshed inserted forest
  have replays := replays_diff (@keyed_under s (.ofNames p)) current
  rw [← told] at replays
  have outside (q : List Name) (beside : ¬(p <+: q ∧ p ≠ q)) :=
    at?_refresh_outside inserted.keyed forest beside
  rw [refresh_ok (inserted.rooted.symm ▸ entries)]
  constructor
  case holds => exact (agrees_iff keyed_under current).mpr now
  case told => exact told
  case accepts => exact replays.accepts
  case leads => exact (agrees_iff keyed_under.replayAll keyed_under).mpr (replays.leads.trans now.symm)
  case itself => exact (outside p fun both => both.2 rfl).trans (at?_insert_self path)
  case rest =>
    intro q apart
    have other : q ≠ p := fun same => apart (same ▸ List.prefix_refl q)
    exact (outside q fun both => apart both.1).trans (at?_insert_other path other)

theorem remove_standing (found : s.at? p = some known) (isDir : known.isDirectory = true)
    (looked : look d scope s p = some fresh) (stands : fresh.isDirectory = true) (deep : scope.recursive = true) :
    Reconcile.remove d scope s p = refresh d scope (s.insert fresh) (.ofNames p) := by
  unfold Reconcile.remove
  rw [show s.get? (.ofNames p) = some known from found]
  simp only [looked, isDir, stands, deep, bne_self_eq_false, Bool.false_eq_true, if_true, if_false]

theorem apply_leaving (shown : scope.shows p = true)
    (leaving : r.action = .removed ∨ r.action = .renamedFrom) :
    apply d scope s r.action p = Reconcile.remove d scope s p := by
  rw [apply_shown shown]
  rcases leaving with action | action <;> rw [action]

-- A batch of one record does what the record does, and keeps the root unless the record is about the root.
theorem batch_single (below : p ≠ []) (path : r.path.names? = some p) : batch d scope s [r] =
    ⟨(apply d scope s r.action p).1, (apply d scope s r.action p).2, false⟩ := by
  have quiet : touchesRoot [r] = false := by simp [touchesRoot, path, below]
  unfold batch
  rw [applyAll_cons below path]
  simp [quiet, applyAll]

-- A late removal of a tracked directory that stands, be it the one that was tracked or another of that name. A record
-- about the root is no such removal: with the root still there it does nothing, whatever stands below it.
theorem stale_removal_resyncs (reached : Reachable scope root s) (deep : scope.recursive = true)
    (leaving : r.action = .removed ∨ r.action = .renamedFrom) (path : r.path.names? = some names) :
    (names ≠ [] → ∀ known fresh, s.at? names = some known → known.isDirectory = true →
      d.stat root (.ofNames names) scope.followLinks = .ok fresh → fresh.isDirectory = true →
      ∃ current added, (empty root).scanInto d scope (.ofNames names) = .ok (current, added) ∧
        (batch d scope s [r]).rootRemoved = false ∧
        Resynced s names fresh current ((batch d scope s [r]).snapshot, (batch d scope s [r]).changes)) ∧
    (names = [] → d.isDir root = true → batch d scope s [r] = ⟨s, [], false⟩) := by
  have tracked := tracked_of_reachable reached
  refine ⟨fun below known fresh found isDir stood stands => ?_, fun top still => ?_⟩
  · obtain ⟨f, met, entry⟩ := Disk.lookup_of_stat stood
    have leads : f.node.isDir = true := by
      rw [entry] at stands
      exact stands
    obtain ⟨es, entries⟩ := Disk.entriesBelow_of_isDir tracked.nonempty below met leads
    have looked : look d scope s names = some fresh := look_of_stat (tracked.rooted ▸ stood)
    have shown : scope.shows names = true :=
      shown_of_within (within_of_reachable reached) names (by rw [found]; rfl)
    rw [batch_single below path]
    refine ⟨_, _, scanInto_empty entries, rfl, ?_⟩
    rw [apply_leaving shown leaving, remove_standing found isDir looked stands deep]
    exact resynced_refresh tracked found (look_path looked) entries
  · have none : applyAll d scope s [r] = (s, []) := by
      rw [applyAll_cons_other (.inr (top ▸ path))]
      rfl
    rw [batch_eq (tracked.rooted ▸ still), none]

theorem stale_removal_resyncs_deeper : Reachable Sample.whole Sample.watched Sample.grown ∧
    ∃ current added, (empty Sample.watched).scanInto (Sample.deeper .epoch) Sample.whole (.ofNames [Sample.name]) =
        .ok (current, added) ∧ added = [Sample.beneath, Sample.innermost] ∧
      Resynced Sample.grown [Sample.name] Sample.inner current
        ((batch (Sample.deeper .epoch) Sample.whole Sample.grown [Sample.removed]).snapshot,
          (batch (Sample.deeper .epoch) Sample.whole Sample.grown [Sample.removed]).changes) := by
  have scanned : scan Sample.filled Sample.whole Sample.watched = .ok Sample.held := rfl
  have grown : Reachable Sample.whole Sample.watched Sample.grown :=
    .called Sample.nested (.batch _) (.scanned scanned)
  have told := stale_removal_resyncs (d := Sample.deeper .epoch) grown rfl (r := Sample.removed) (.inl rfl) rfl
  obtain ⟨current, added, alone, _, resynced⟩ :=
    told.1 (by simp) Sample.inner Sample.inner rfl rfl rfl rfl
  exact ⟨grown, current, added, alone, by cases alone; rfl, resynced⟩

-- The watched directory was removed and made again, and the file that was in it is still tracked.
theorem stale_root_removal_ignored : Reachable Sample.whole Sample.watched Sample.held ∧
    Sample.bare.isDir Sample.watched = true ∧ Path.names? .empty = some [] ∧
    batch Sample.bare Sample.whole Sample.held [⟨.removed, .empty⟩] = ⟨Sample.held, [], false⟩ ∧
    (empty Sample.watched).scanInto Sample.bare Sample.whole .empty = .ok (.empty Sample.watched, []) ∧
    (Sample.held.under .empty).agrees (.empty Sample.watched) = false := by
  have scanned : scan Sample.filled Sample.whole Sample.watched = .ok Sample.held := rfl
  exact ⟨.scanned scanned, rfl, rfl, rfl, rfl, rfl⟩

end Reconcile

end DirWatch
