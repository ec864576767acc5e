import DirWatch.Proofs.Reconcile.Report
import DirWatch.Proofs.Scan.Reach

namespace DirWatch

namespace Snapshot

def HasDir (s : Snapshot) (names : List Name) : Prop := ∃ dir, s.at? names = some dir ∧ dir.isDirectory = true

theorem HasDir.kept {s t : Snapshot} {names : List Name} (dir : s.HasDir names)
    (same : t.at? names = s.at? names) : t.HasDir names := by
  obtain ⟨e, there, isDir⟩ := dir
  exact ⟨e, same.trans there, isDir⟩

-- Every entry below another one stands in a directory.
def Housed (s : Snapshot) : Prop :=
  ∀ above n, above ≠ [] → (s.at? (above ++ [n])).isSome = true → s.HasDir above

theorem Housed.above {s : Snapshot} {above q : List Name} (housed : s.Housed) (closed : s.Closed)
    (top : above ≠ []) (up : above <+: q) (proper : above ≠ q) (present : (s.at? q).isSome = true) :
    s.HasDir above := by
  obtain ⟨n, rest, rfl⟩ := exists_name_of_prefix up proper
  refine housed above n top (closed (above ++ [n]) _ (by simp) ?_ present)
  exact (List.prefix_append_right_inj above).mpr (by simp)

end Snapshot

namespace Reconcile

open Snapshot

variable {d : Disk} {scope : Scope} {s t : Snapshot} {root : Path} {a p q names : List Name}
  {e known fresh : Entry} {es : List Entry} {step : Step} {action : Action} {records : List Record}

theorem grown_paths (nonempty : root.bytes ≠ []) (path : fresh.path = .ofNames a) :
    ∀ e ∈ grown d scope root fresh, ∃ names, e.path = .ofNames names := by
  intro e met
  obtain ⟨more, below⟩ := grown_path nonempty path met
  exact ⟨_, below⟩

section Housed

variable (tracked : t.Tracked root) (housed : t.Housed)
include tracked housed

theorem housed_grown (path : fresh.path = .ofNames a) (bare : ∀ q, a <+: q → t.at? q = none)
    (upper : ∀ above, above ≠ [] → above <+: a → above ≠ a → t.HasDir above) :
    (t.insertAll (grown d scope root fresh)).Housed := by
  have apart : Apart (grown d scope root fresh) := grown_apart tracked.nonempty path
  intro above n some present
  by_cases inside : a <+: above
  · obtain ⟨e, found⟩ := Option.isSome_iff_exists.mp present
    rcases at?_insertAll_cases apart (grown_paths tracked.nonempty path) found with ⟨met, here⟩ | before
    · obtain ⟨front, rfl⟩ := inside
      obtain ⟨dir, member, there, isDir⟩ := grown_above tracked.nonempty path met (by simp) here
      exact ⟨dir, at?_insertAll_mem apart member there, isDir⟩
    · rw [bare _ (inside.trans (List.prefix_append _ _))] at before
      cases before
  · apply HasDir.kept _ (at?_grown_outside tracked.nonempty path inside)
    by_cases below : a <+: above ++ [n]
    · have same : a = above ++ [n] := (List.prefix_concat_iff.mp below).resolve_right inside
      exact upper above some (by simp [same]) (by simp [same])
    · rw [at?_grown_outside tracked.nonempty path below] at present
      exact housed above n some present

omit tracked in
theorem housed_insert (path : fresh.path = .ofNames p) (seen : t.at? p = some known)
    (kind : known.isDirectory = fresh.isDirectory) : (t.insert fresh).Housed := by
  intro above n some present
  have before : (t.at? (above ++ [n])).isSome = true := by
    by_cases here : above ++ [n] = p
    · rw [here, seen]
      rfl
    · rwa [at?_insert_other path here] at present
  obtain ⟨dir, there, isDir⟩ := housed above n some before
  by_cases here : above = p
  · subst here
    rw [seen] at there
    cases there
    exact ⟨fresh, at?_insert_self path, kind ▸ isDir⟩
  · exact ⟨dir, (at?_insert_other path here).trans there, isDir⟩

omit tracked in
theorem housed_removeSubtree (p : List Name) : (t.removeSubtree (.ofNames p)).Housed := by
  intro above n some present
  by_cases inside : p <+: above ++ [n]
  · rw [at?_removeSubtree_inside inside] at present
    cases present
  · rw [at?_removeSubtree_outside inside] at present
    refine (housed above n some present).kept (at?_removeSubtree_outside fun upper => inside ?_)
    exact upper.trans (List.prefix_append _ _)

theorem housed_corrections (forest : Forest scope p none es) (seen : t.at? p = some known)
    (isDir : known.isDirectory = true) : (t.replayAll (corrections t p es)).Housed := by
  intro above n some present
  by_cases below : p <+: above ++ [n] ∧ p ≠ above ++ [n]
  · have inside : p <+: above := (List.prefix_concat_iff.mp below.1).resolve_left below.2
    by_cases top : p = above
    · subst top
      exact ⟨known, (at?_refresh_outside tracked.keyed forest (by simp)).trans seen, isDir⟩
    · obtain ⟨e, listed, path⟩ := (present_refresh tracked.keyed forest below.1 below.2).mp present
      obtain ⟨front, rfl⟩ := inside
      obtain ⟨dir, member, there, kind⟩ :=
        forest.above listed (by simpa using top) (List.cons_ne_nil n []) path
      have only {k : Entry} (met : k ∈ es) (path : k.path = .ofNames (p ++ front)) : k.isDirectory = true := by
        have one := at?_insertAll_mem (s := t) forest.apart met path
        rw [at?_insertAll_mem forest.apart member there] at one
        cases one
        exact kind
      rcases at?_refresh_inside tracked.keyed forest (List.prefix_append p front) top with
        ⟨k, met, path, stands⟩ | ⟨absent, _⟩
      · rcases stands with new | ⟨kept, o, old, alike⟩
        · exact ⟨k, new, only met path⟩
        · exact ⟨o, kept.trans old, (Entry.isDirectory_of_differs alike).trans (only met path)⟩
      · exact absurd there (absent dir member)
  · rw [at?_refresh_outside tracked.keyed forest below] at present
    refine (housed above n some present).kept (at?_refresh_outside tracked.keyed forest fun deeper => ?_)
    refine below ⟨deeper.1.trans (List.prefix_append _ _), fun same => ?_⟩
    have short := deeper.1.length_le
    rw [same, List.length_append, List.length_singleton] at short
    omega

end Housed

section Hints

variable (tracked : t.Tracked root) (housed : t.Housed)
include tracked housed

theorem housed_insertNew (looked : look d scope t a = some fresh) (top : a ≠ []) (absent : t.at? a = none)
    (upper : ∀ above, above ≠ [] → above <+: a → above ≠ a → t.HasDir above) :
    (insertNew d scope t fresh).1.Housed := by
  have path := look_path looked
  have bare (q : List Name) (below : a <+: q) := tracked.closed.none_below top absent below
  rw [insertNew_eq (tracked.rooted ▸ tracked.nonempty) path bare, tracked.rooted]
  exact housed_grown tracked housed path bare upper

theorem housed_replace (looked : look d scope t p = some fresh) (seen : t.at? p = some known) :
    (Reconcile.replace d scope t fresh).1.Housed := by
  have path := look_path looked
  rw [replace_eq (tracked.rooted ▸ tracked.nonempty) path, tracked.rooted]
  refine housed_grown (tracked_removeSubtree tracked p) (housed_removeSubtree housed p) path
    (fun q below => at?_removeSubtree_inside below) fun above top up proper => ?_
  have outside : ¬p <+: above := fun lower => proper (up.eq_of_length_le lower.length_le)
  have dir := housed.above tracked.closed top up proper (by rw [seen]; rfl)
  exact dir.kept (at?_removeSubtree_outside outside)

theorem housed_refresh (seen : t.at? p = some known) (isDir : known.isDirectory = true) :
    (refresh d scope t (.ofNames p)).1.Housed := by
  cases scanned : d.entriesBelow scope t.root (t.root.join (.ofNames p)) with
  | error e =>
    rw [refresh_error scanned]
    exact housed
  | ok es =>
    have forest : Forest scope p none es :=
      Disk.entriesBelow_forest (tracked.rooted ▸ tracked.nonempty) scanned
    rw [refresh_ok scanned]
    exact housed_corrections tracked housed forest seen isDir

theorem housed_add (clear : ∀ above dir, above ≠ [] → above <+: names → above ≠ names →
      (look d scope t names).isSome = true → t.at? above = some dir → dir.isDirectory = true)
    (below : names ≠ []) : (add d scope t names).1.Housed := by
  unfold add
  split
  · exact housed
  · rename_i fresh looked
    have clear (above : List Name) (top : above ≠ []) (up : above <+: names) (proper : above ≠ names)
        (present : (t.at? above).isSome = true) : t.HasDir above := by
      obtain ⟨dir, there⟩ := Option.isSome_iff_exists.mp present
      exact ⟨dir, there, clear above dir top up proper (by rw [looked]; rfl) there⟩
    split
    · rename_i absent
      have upper := @missingAncestor_spec t names tracked.closed
      cases missing : missingAncestor t names with
      | some ancestor =>
        rw [missing] at upper
        obtain ⟨top, up, _, gone, rest⟩ := upper
        dsimp only
        split
        · rename_i first found
          refine housed_insertNew tracked housed found top gone fun above some within proper => ?_
          refine clear above some (within.trans up) (fun same => ?_) (rest above some within proper)
          subst same
          exact proper (within.eq_of_length_le up.length_le)
        · exact housed
      | none =>
        rw [missing] at upper
        refine housed_insertNew tracked housed looked below absent fun above some up proper => ?_
        exact clear above some up proper (upper above some up proper)
    · rename_i known seen
      split
      · exact housed_replace tracked housed looked seen
      · rename_i kinds
        split
        · exact housed_insert housed (look_path looked) seen (by simpa using kinds)
        · exact housed

theorem housed_remove : (Reconcile.remove d scope t names).1.Housed := by
  unfold Reconcile.remove
  split
  · exact housed
  · rename_i known seen
    split
    · exact housed_removeSubtree housed names
    · rename_i fresh looked
      split
      · exact housed_replace tracked housed looked seen
      · rename_i kinds
        have path := look_path looked
        have inserted := housed_insert housed path seen (by simpa using kinds)
        split
        · rename_i isDir
          split
          · exact housed_refresh (tracked_insert tracked path seen) inserted (at?_insert_self path) isDir
          · exact inserted
        · split
          · exact inserted
          · exact housed

theorem housed_modify : (modify d scope t names).1.Housed := by
  unfold modify
  split
  · exact housed
  · rename_i known seen
    split
    · exact housed
    · rename_i fresh looked
      split
      · exact housed_replace tracked housed looked seen
      · rename_i kinds
        have inserted := housed_insert housed (look_path looked) seen (by simpa using kinds)
        split
        · exact inserted
        · split
          · exact inserted
          · exact housed

end Hints

theorem look_of_stat (shown : d.stat t.root (.ofNames q) scope.followLinks = .ok e) :
    look d scope t q = some e := by
  unfold look
  rw [shown]
  rfl

theorem look_grown (nonempty : t.root.bytes ≠ []) (looked : look d scope t a = some fresh)
    (met : e ∈ grown d scope t.root fresh) (path : e.path = .ofNames q) : look d scope t q = some e := by
  rcases List.mem_cons.mp met with rfl | met
  · rw [look_path looked] at path
    exact Path.ofNames_injective path ▸ looked
  · unfold contents at met
    split at met
    · split at met
      · rename_i es scanned
        rw [look_path looked] at scanned
        exact look_of_stat (path ▸ Disk.entriesBelow_shows nonempty scanned met)
      · cases met
    · cases met

def Seen (d : Disk) (scope : Scope) (s t : Snapshot) : Prop :=
  ∀ q e, t.at? q = some e → s.at? q = some e ∨ look d scope s q = some e

theorem Seen.trans {u : Snapshot} (first : Seen d scope s t) (second : Seen d scope t u)
    (same : t.root = s.root) : Seen d scope s u := by
  intro q e found
  rcases second q e found with old | new
  · exact first q e old
  · exact .inr (by rwa [look, same] at new)

section Seen

variable (nonempty : s.root.bytes ≠ [])
include nonempty

theorem seen_grown (looked : look d scope s a = some fresh) (kept : Seen d scope s t) :
    Seen d scope s (t.insertAll (grown d scope s.root fresh)) := by
  intro q e found
  have path := look_path looked
  rcases at?_insertAll_cases (grown_apart nonempty path) (grown_paths nonempty path) found with ⟨met, here⟩ | before
  · exact .inr (look_grown nonempty looked met here)
  · exact kept q e before

omit nonempty in
theorem seen_insert (looked : look d scope s p = some fresh) : Seen d scope s (s.insert fresh) := by
  intro q e found
  by_cases here : q = p
  · subst here
    rw [at?_insert_self (look_path looked)] at found
    cases found
    exact .inr looked
  · exact .inl ((at?_insert_other (look_path looked) here).symm.trans found)

omit nonempty in
theorem seen_removeSubtree : Seen d scope s (s.removeSubtree (.ofNames p)) :=
  fun _ _ found => .inl (get?_of_removeSubtree found)

theorem seen_refresh (keyed : s.Keyed) : Seen d scope s (refresh d scope s (.ofNames p)).1 := by
  cases scanned : d.entriesBelow scope s.root (s.root.join (.ofNames p)) with
  | error e =>
    rw [refresh_error scanned]
    exact fun _ _ found => .inl found
  | ok es =>
    have forest : Forest scope p none es := Disk.entriesBelow_forest nonempty scanned
    rw [refresh_ok scanned]
    intro q e found
    by_cases below : p <+: q ∧ p ≠ q
    · rcases at?_refresh_inside keyed forest below.1 below.2 with ⟨n, listed, path, stands⟩ | ⟨_, gone⟩
      · rcases stands with new | ⟨kept, _⟩
        · rw [new] at found
          cases found
          exact .inr (look_of_stat (path ▸ Disk.entriesBelow_shows nonempty scanned listed))
        · exact .inl (kept.symm.trans found)
      · rw [gone] at found
        cases found
    · exact .inl ((at?_refresh_outside keyed forest below).symm.trans found)

theorem Effect.seen (keyed : s.Keyed) (effect : Effect d scope s step) : Seen d scope s step.1 := by
  cases effect with
  | idle => exact fun _ _ found => .inl found
  | grow _ looked => exact seen_grown nonempty looked fun _ _ found => .inl found
  | drop => exact seen_removeSubtree
  | replace _ _ looked => exact seen_grown nonempty looked seen_removeSubtree
  | update _ _ looked => exact seen_insert looked
  | touch _ _ looked => exact seen_insert looked
  | @refresh p known fresh shown _ looked =>
    have based : (s.insert fresh).root.bytes ≠ [] := nonempty
    exact (seen_insert looked).trans (seen_refresh based keyed.insert) rfl

end Seen

-- An addition at a path that the disk shows, below something that was tracked, or is shown, as no directory.
def Misplaced (d : Disk) (scope : Scope) (s : Snapshot) (r : Record) : Prop :=
  (r.action = .added ∨ r.action = .renamedTo) ∧ ∃ names, r.path.names? = some names ∧
    scope.shows names = true ∧ (look d scope s names).isSome = true ∧
    ∃ above e, above ≠ [] ∧ above <+: names ∧ above ≠ names ∧
      (s.at? above = some e ∨ look d scope s above = some e) ∧ e.isDirectory = false

theorem housed_apply (tracked : t.Tracked root) (housed : t.Housed) (below : names ≠ [])
    (clear : action = .added ∨ action = .renamedTo → scope.shows names = true →
      ∀ above dir, above ≠ [] → above <+: names → above ≠ names →
        (look d scope t names).isSome = true → t.at? above = some dir → dir.isDirectory = true) :
    (apply d scope t action names).1.Housed := by
  cases shown : scope.shows names with
  | false =>
    rw [apply_hidden below shown]
    exact housed
  | true =>
    rw [apply_shown shown]
    cases action with
    | added => exact housed_add tracked housed (clear (.inl rfl) shown) below
    | renamedTo => exact housed_add tracked housed (clear (.inr rfl) shown) below
    | removed => exact housed_remove tracked housed
    | renamedFrom => exact housed_remove tracked housed
    | modified => exact housed_modify tracked housed

-- While a batch is followed, what is tracked is what was tracked before it, or what the disk shows.
theorem housed_applyAll (tracked : t.Tracked root) (housed : t.Housed) (based : s.root = root)
    (seen : Seen d scope s t) (clear : ∀ r ∈ records, ¬Misplaced d scope s r) :
    (applyAll d scope t records).1.Housed := by
  induction records generalizing t with
  | nil => exact housed
  | cons r rest ih =>
    have later : ∀ r ∈ rest, ¬Misplaced d scope s r := fun r listed => clear r (List.mem_cons_of_mem _ listed)
    rcases names_cases r with other | ⟨names, below, path⟩
    · rw [applyAll_cons_other other]
      exact ih tracked housed seen later
    · rw [applyAll_cons below path]
      have nonempty : t.root.bytes ≠ [] := tracked.rooted ▸ tracked.nonempty
      have same : t.root = s.root := tracked.rooted.trans based.symm
      have looks (q : List Name) : look d scope t q = look d scope s q := by rw [look, look, same]
      have effect : Effect d scope t (apply d scope t r.action names) :=
        apply_effect nonempty tracked.closed below r.action
      refine ih (effect.replays tracked).2 ?_ (seen.trans (effect.seen nonempty tracked.keyed) same) later
      refine housed_apply tracked housed below fun arrives shown above dir top up proper found there => ?_
      by_contra leaf
      refine clear r List.mem_cons_self ⟨arrives, names, path, shown, looks names ▸ found, above, dir, top, up, ?_⟩
      exact ⟨proper, seen above dir there, by simpa using leaf⟩

theorem housed_batch (tracked : s.Tracked root) (housed : s.Housed)
    (clear : ∀ r ∈ records, ¬Misplaced d scope s r) : (batch d scope s records).snapshot.Housed := by
  have after : (applyAll d scope s records).1.Housed :=
    housed_applyAll tracked housed tracked.rooted (fun _ _ found => .inl found) clear
  unfold batch
  dsimp only
  split
  · exact housed_removeSubtree after []
  · exact after

theorem mem_of_forest (forest : Forest scope names none es) (found : ((empty root).insertAll es).at? q = some e) :
    e ∈ es ∧ e.path = .ofNames q := by
  refine (at?_insertAll_cases forest.apart (fun k listed => ?_) found).resolve_right (by simp)
  obtain ⟨n, more, _, path⟩ := forest.path_below listed
  exact ⟨_, path⟩

theorem housed_scan (scanned : scan d scope root = .ok s) : s.Housed := by
  obtain ⟨_, es, _, forest, rfl⟩ := scan_forest scanned
  intro above n top present
  obtain ⟨k, found⟩ := Option.isSome_iff_exists.mp present
  obtain ⟨listed, path⟩ := mem_of_forest forest found
  obtain ⟨dir, member, there, isDir⟩ := forest.above listed top (List.cons_ne_nil n []) path
  exact ⟨dir, at?_insertAll_mem forest.apart member there, isDir⟩

theorem housed_rescan (housed : s.Housed) : (Call.overflow.after d scope s).Housed := by
  unfold Call.after Call.run rescan
  cases scanned : scan d scope s.root with
  | ok fresh => exact housed_scan scanned
  | error e => cases e <;> first | exact housed | exact housed_removeSubtree housed []

-- The snapshots that come about while no addition is misplaced.
inductive Placed (scope : Scope) (root : Path) : Snapshot → Prop
  | scanned {d : Disk} {s : Snapshot} : scan d scope root = .ok s → Placed scope root s
  | batch {s : Snapshot} (d : Disk) (records : List Record) : Placed scope root s →
      (∀ r ∈ records, ¬Misplaced d scope s r) → Placed scope root (batch d scope s records).snapshot
  | overflow {s : Snapshot} (d : Disk) : Placed scope root s →
      Placed scope root (Call.overflow.after d scope s)

theorem reachable_of_placed (placed : Placed scope root s) : Reachable scope root s := by
  induction placed with
  | scanned found => exact .scanned found
  | batch d records _ _ ih => exact .called d (.batch records) ih
  | overflow d _ ih => exact .called d .overflow ih

theorem housed_of_placed (placed : Placed scope root s) : s.Housed := by
  induction placed with
  | scanned found => exact housed_scan found
  | batch d records before clear ih =>
    exact housed_batch (tracked_of_reachable (reachable_of_placed before)) ih clear
  | overflow d _ ih => exact housed_rescan ih

-- Whatever the disk showed and whatever was reported, the path above each entry is tracked; and it is tracked
-- as a directory if no addition was misplaced.
theorem entries_stand_in_directories (reached : Reachable scope root s) {p : Path}
    (found : s.get? p = some e) : ∃ above n, p.components = (above ++ [n]).map .name ∧
      (above ≠ [] → ∃ dir, s.get? (.ofNames above) = some dir ∧
        (Placed scope root s → dir.isDirectory = true)) := by
  have tracked := tracked_of_reachable reached
  obtain ⟨names, top, parts⟩ := tracked.named p e found
  obtain ⟨above, n, rfl⟩ := (List.eq_nil_or_concat' names).resolve_left top
  have present : (s.at? (above ++ [n])).isSome = true := by
    rw [← at?_of_components parts, found]
    rfl
  refine ⟨above, n, parts, fun some => ?_⟩
  obtain ⟨dir, there⟩ :=
    Option.isSome_iff_exists.mp (tracked.closed above _ some (List.prefix_append _ _) present)
  refine ⟨dir, there, fun placed => ?_⟩
  obtain ⟨k, same, isDir⟩ := housed_of_placed placed above n some present
  rw [there] at same
  cases same
  exact isDir

namespace Sample

def beneath : Path := .ofNames [name, name]

def grown : Snapshot := (batch nested whole held [⟨.modified, .ofName name⟩]).snapshot

-- A record about what it holds comes alone, and the file is still tracked.
def misplaced : Snapshot := (batch nested whole held [⟨.added, beneath⟩]).snapshot

end Sample

theorem entries_stand_in_directories_grown : ∃ e, Sample.grown.get? Sample.beneath = some e ∧
    ∃ above n, Sample.beneath.components = (above ++ [n]).map .name ∧
      (above ≠ [] → ∃ dir, Sample.grown.get? (.ofNames above) = some dir ∧ dir.isDirectory = true) := by
  have scanned : scan Sample.filled Sample.whole Sample.watched = .ok Sample.held := rfl
  have placed : Placed Sample.whole Sample.watched Sample.grown := by
    refine .batch Sample.nested _ (.scanned scanned) fun r listed misplaced => ?_
    cases List.mem_singleton.mp listed
    rcases misplaced.1 with arrives | arrives <;> cases arrives
  obtain ⟨above, n, parts, stands⟩ :=
    entries_stand_in_directories (reachable_of_placed placed) (p := Sample.beneath) rfl
  refine ⟨_, rfl, above, n, parts, fun some => ?_⟩
  obtain ⟨dir, there, isDir⟩ := stands some
  exact ⟨dir, there, isDir placed⟩

theorem entry_tracked_below_a_file : Reachable Sample.whole Sample.watched Sample.misplaced ∧
    (∃ e, Sample.misplaced.get? Sample.beneath = some e) ∧
    Sample.misplaced.get? (.ofName Sample.name) = some Sample.file ∧ Sample.file.isDirectory = false := by
  have scanned : scan Sample.filled Sample.whole Sample.watched = .ok Sample.held := rfl
  exact ⟨.called Sample.nested (.batch _) (.scanned scanned), ⟨_, rfl⟩, rfl, rfl⟩

end Reconcile

end DirWatch
