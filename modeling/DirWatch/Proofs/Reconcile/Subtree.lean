import DirWatch.Proofs.Reconcile.Idle

namespace DirWatch

namespace Disk

variable {d : Disk} {scope : Scope} {root : Path} {dir names more : List Name} {last : Bool} {f : Found}

-- The link at `names` leads back to a directory that the one at `dir` stands in.
def LeadsAbove (d : Disk) (root : Path) (dir names : List Name) : Prop :=
  ∃ above, above <+: dir ∧ above ≠ dir ∧ d.Returns root above names

def Leaves (d : Disk) (root : Path) (dir names : List Name) : Prop :=
  ∃ q, dir <+: q ∧ q ≠ dir ∧ q <+: names ∧ d.LeadsAbove root dir q

theorem onward_append_iff : d.Onward root [] [] (dir ++ more) ↔
    d.Onward root [] [] dir ∧ d.Onward root dir dir (dir ++ more) ∧ ¬d.Leaves root dir (dir ++ more) := by
  constructor
  · intro onward
    refine ⟨fun q above low proper up => ?_, fun q above low proper up base => ?_, fun leaves => ?_⟩
    · exact onward q above low proper (up.trans (List.prefix_append dir more))
    · refine onward q above List.nil_prefix (fun none => ?_) up List.nil_prefix
      subst none
      exact proper (List.prefix_nil.mp low).symm
    · obtain ⟨q, low, proper, up, above, upper, higher, returns⟩ := leaves
      refine onward q above List.nil_prefix (fun none => ?_) up List.nil_prefix (upper.trans low) ?_ returns
      · subst none
        exact proper (List.prefix_nil.mp low).symm
      · intro same
        subst same
        exact proper (upper.eq_of_length_le low.length_le)
  · intro given
    obtain ⟨first, later, stays⟩ := given
    intro q above low proper up base upper beyond returns
    by_cases early : q <+: dir
    · exact first q above low proper early base upper beyond returns
    · have below : dir <+: q :=
        (List.prefix_or_prefix_of_prefix up (List.prefix_append dir more)).resolve_left early
      have other : q ≠ dir := fun same => early (same ▸ List.prefix_refl q)
      rcases List.prefix_or_prefix_of_prefix upper below with high | deep
      · by_cases here : above = dir
        · exact later q above below other up (here ▸ List.prefix_refl above) upper beyond returns
        · exact stays ⟨q, below, other, up, above, high, here, returns⟩
      · exact later q above below other up deep upper beyond returns

theorem entriesBelow_of_isDir (nonempty : root.bytes ≠ []) (some : names ≠ [])
    (looked : d.lookup (root.join (.ofNames names)) last = .ok f) (isDir : f.node.isDir = true) :
    ∃ es, d.entriesBelow scope root (root.join (.ofNames names)) = .ok es := by
  have led : d.isDir (root.join (.ofNames names)) = true := by
    cases last with
    | true =>
      unfold Disk.isDir
      rw [looked]
      exact isDir
    | false =>
      obtain ⟨above, n, rfl⟩ := (List.eq_nil_or_concat' names).resolve_left some
      obtain ⟨place, t, inside, budget, upper⟩ :=
        isDir_iff.mp (isDir_above nonempty (List.prefix_append above [n]) (by simp) looked)
      rw [lookup_child nonempty upper] at looked
      unfold Disk.isDir
      rw [lookup_child nonempty upper]
      split at looked
      · cases looked
      · have here := at?_of_lookup upper
        obtain ⟨node, listed⟩ := listed_of_resolve here looked
        rw [resolve_child here listed (.inl rfl)] at looked
        cases looked
        have plain : ∀ target u, node ≠ .link target u := by
          rintro target u rfl
          cases isDir
        rename_i short
        rw [if_neg short, resolve_child here listed (.inr plain)]
        exact isDir
  obtain ⟨place, t, inside, budget, found⟩ := isDir_iff.mp led
  unfold entriesBelow
  rw [found]
  exact ⟨_, rfl⟩

end Disk

namespace Reconcile

open Snapshot

variable {d : Disk} {scope : Scope} {s : Snapshot} {root : Path} {dir more : List Name} {known e : Entry}
  {es : List Entry}

section Scanned

variable (scanned : scan d scope root = .ok s) (found : s.at? dir = some known) (isDir : known.isDirectory = true)
  (deep : scope.recursive = true) (entries : d.entriesBelow scope root (root.join (.ofNames dir)) = .ok es)
include scanned found isDir deep entries

theorem at?_below_iff (below : more ≠ []) : s.at? (dir ++ more) = some e ↔
    e ∈ es ∧ e.path = .ofNames (dir ++ more) ∧
      (scope.followLinks = true → ¬d.Leaves root dir (dir ++ more)) := by
  have nonempty := (tracked_scan scanned).nonempty
  have forest : Forest scope dir none es := Disk.entriesBelow_forest nonempty entries
  have kept := (Scope.shows_iff.mp (scan_sound scanned found).2).2.1
  constructor
  · intro there
    obtain ⟨seen, shown⟩ := scan_sound scanned there
    have onward (follow : scope.followLinks = true) := Disk.onward_append_iff.mp (scan_onward scanned follow there)
    refine ⟨?_, look_path (scan_look scanned there), fun follow => (onward follow).2.2⟩
    exact Disk.mem_entriesBelow_of_onward nonempty entries (fun follow => (onward follow).2.1) below shown
      (scan_direct scanned there) seen
  · intro given
    obtain ⟨met, path, stays⟩ := given
    obtain ⟨others, place, shown⟩ := forest.shown kept (.inr deep) met
    rw [← Path.ofNames_injective (path.symm.trans place)] at shown
    have onward (follow : scope.followLinks = true) : d.Onward root [] [] (dir ++ more) :=
      Disk.onward_append_iff.mpr ⟨scan_onward scanned follow found,
        Disk.entriesBelow_onward nonempty entries follow met path, stays follow⟩
    exact scan_complete_of_onward scanned onward shown (direct_below scanned found isDir entries met path)
      (path ▸ Disk.entriesBelow_shows nonempty entries met)

theorem mem_below_iff : e ∈ s.below (.ofNames dir) ↔ e ∈ es ∧
    (scope.followLinks = true → ∀ names, e.path = .ofNames names → ¬d.Leaves root dir names) := by
  have tracked := tracked_scan scanned
  have forest : Forest scope dir none es := Disk.entriesBelow_forest tracked.nonempty entries
  rw [tracked.named.mem_below_iff tracked.keyed]
  constructor
  · intro given
    obtain ⟨more, below, there⟩ := given
    obtain ⟨met, place, stays⟩ := (at?_below_iff scanned found isDir deep entries below).mp there
    refine ⟨met, fun follow names same => ?_⟩
    rw [← Path.ofNames_injective (place.symm.trans same)]
    exact stays follow
  · intro given
    obtain ⟨met, stays⟩ := given
    obtain ⟨more, place, shown⟩ := forest.showsBelow met
    exact ⟨more, shown.1, (at?_below_iff scanned found isDir deep entries shown.1).mpr
      ⟨met, place, fun follow => stays follow _ place⟩⟩

end Scanned

theorem leaves_none_iff (forest : Forest scope dir none es) :
    (∀ e ∈ es, ∀ names, e.path = .ofNames names → ¬d.Leaves root dir names) ↔
      ∀ e ∈ es, ∀ names, e.path = .ofNames names → ¬d.LeadsAbove root dir names := by
  constructor
  · intro stays e met names path leads
    obtain ⟨more, place, shown⟩ := forest.showsBelow met
    obtain rfl := Path.ofNames_injective (path.symm.trans place)
    refine stays e met _ path ⟨_, List.prefix_append dir more, ?_, List.prefix_refl _, leads⟩
    simp [shown.1]
  · intro none e met names path leaves
    obtain ⟨q, ⟨front, rfl⟩, proper, ⟨back, rfl⟩, leads⟩ := leaves
    have below : front ≠ [] := by simpa using proper
    by_cases last : back = []
    · subst last
      exact none e met _ path (by simpa using leads)
    · obtain ⟨k, there, place, _⟩ := forest.above met below last path
      exact none k there _ place leads

theorem scanInto_empty {p : Path} (entries : d.entriesBelow scope root (root.join p) = .ok es) :
    (empty root).scanInto d scope p = .ok ((empty root).insertAll es, ((empty root).absorb es).2) := by
  rw [scanInto_eq, show (empty root).root = root from rfl, entries, ← absorb_fst]

-- A scan of a directory that a scan of the root has found succeeds and finds all that the latter has
-- found below. What it finds besides stands behind links that lead back above the directory.
theorem subtree_scanned_alone (deep : scope.recursive = true) (scanned : scan d scope root = .ok s)
    (listed : known ∈ s.entries) (isDir : known.isDirectory = true) :
    ∃ dir u added, known.path = .ofNames dir ∧
      (empty root).scanInto d scope known.path = .ok (u, added) ∧
      (∀ e, e ∈ s.below known.path ↔ e ∈ u.entries ∧
        (scope.followLinks = true → ∀ names, e.path = .ofNames names → ¬d.Leaves root dir names)) ∧
      (u.entries = s.below known.path ↔ (scope.followLinks = true →
        ∀ e ∈ u.entries, ∀ names, e.path = .ofNames names → ¬d.LeadsAbove root dir names)) := by
  have tracked := tracked_scan scanned
  have stands := tracked.keyed.mem_entries_iff.mp listed
  obtain ⟨dir, top, parts⟩ := tracked.named _ _ stands
  have found : s.at? dir = some known := (at?_of_components parts).symm.trans stands
  have path : known.path = .ofNames dir := look_path (scan_look scanned found)
  obtain ⟨f, looked, entry⟩ := Disk.lookup_of_stat (scan_sound scanned found).1
  have leads : f.node.isDir = true := by
    rw [entry] at isDir
    exact isDir
  obtain ⟨es, entries⟩ := Disk.entriesBelow_of_isDir tracked.nonempty top looked leads
  have forest : Forest scope dir none es := Disk.entriesBelow_forest tracked.nonempty entries
  have met (e : Entry) : e ∈ ((empty root).insertAll es).entries ↔ e ∈ es := mem_entries_insertAll forest.apart
  have below (e : Entry) := @mem_below_iff d scope s root dir known e es scanned found isDir deep entries
  rw [path]
  refine ⟨dir, _, _, rfl, scanInto_empty entries, fun e => ?_, ?_⟩
  · rw [met, below]
  · simp only [met]
    constructor
    · intro same follow
      refine (leaves_none_iff forest).mp fun e listed => ?_
      exact ((below e).mp (same ▸ (met e).mpr listed)).2 follow
    · intro none
      refine Sorted.ext (keyed_empty root).insertAll.sorted_entries tracked.keyed.sorted_below fun e => ?_
      rw [met, below]
      exact ⟨fun listed => ⟨listed, fun follow => (leaves_none_iff forest).mpr (none follow) e listed⟩, And.left⟩

namespace Sample

-- In the inner directory, besides the file, stands a link back to the watched one.
def looped : Disk := ⟨.epoch, .dir top .epoch
  (.dir name .epoch (.file name 1 .epoch (.link shortcut ⟨[46, 46]⟩ .epoch .done)) .done) .done, by decide⟩

def inner : Entry := ⟨.ofName name, true, some .epoch, 0⟩

end Sample

theorem subtree_scanned_alone_looped : ∃ s u added, scan Sample.looped Sample.through Sample.watched = .ok s ∧
    (empty Sample.watched).scanInto Sample.looped Sample.through Sample.inner.path = .ok (u, added) ∧
    ⟨.ofNames [Sample.name, Sample.name], false, some .epoch, 1⟩ ∈ s.below Sample.inner.path ∧
    ∀ e ∈ s.below Sample.inner.path, e ∈ u.entries := by
  have scanned : scan Sample.looped Sample.through Sample.watched = .ok _ := rfl
  have listed : Sample.inner ∈ [Sample.inner, ⟨.ofNames [Sample.name, Sample.name], false, some .epoch, 1⟩] :=
    List.mem_cons_self
  obtain ⟨_, u, added, _, alone, both, _⟩ := subtree_scanned_alone rfl scanned listed rfl
  exact ⟨_, u, added, scanned, alone, List.mem_cons_self, fun e below => ((both e).mp below).1⟩

-- The link itself, and all that stands behind it, is found from the inner directory alone.
theorem subtree_scanned_alone_more : ∃ s u added, scan Sample.looped Sample.through Sample.watched = .ok s ∧
    s.entries = [Sample.inner, ⟨.ofNames [Sample.name, Sample.name], false, some .epoch, 1⟩] ∧
    (empty Sample.watched).scanInto Sample.looped Sample.through Sample.inner.path = .ok (u, added) ∧
    ⟨.ofNames [Sample.name, Sample.shortcut], true, some .epoch, 0⟩ ∈ u.entries ∧
    u.entries ≠ s.below Sample.inner.path :=
  ⟨_, _, _, rfl, rfl, rfl, by decide, by decide⟩

end Reconcile

end DirWatch
