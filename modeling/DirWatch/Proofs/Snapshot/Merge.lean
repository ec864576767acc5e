import DirWatch.Proofs.Snapshot.Replay

namespace DirWatch.Snapshot

variable {r s t : Snapshot} {p dir : Path} {e o n : Entry} {olds news : List Entry} {c : Change}

theorem merge_nil : merge [] news = news.map .added := rfl

theorem merge_done : merge (o :: olds) [] = .removed o :: merge olds [] := rfl

theorem merge_cons : merge (o :: olds) (n :: news) = match compare o n with
    | .lt => .removed o :: merge olds (n :: news)
    | .gt => .added n :: merge (o :: olds) news
    | .eq => compareEntries o n ++ merge olds news := rfl

theorem merge_lt (before : compare o n = .lt) :
    merge (o :: olds) (n :: news) = .removed o :: merge olds (n :: news) := by
  rw [merge_cons, before]

theorem merge_gt (after : compare o n = .gt) :
    merge (o :: olds) (n :: news) = .added n :: merge (o :: olds) news := by
  rw [merge_cons, after]

theorem merge_eq (met : compare o n = .eq) :
    merge (o :: olds) (n :: news) = compareEntries o n ++ merge olds news := by
  rw [merge_cons, met]

theorem merge_induct {motive : List Entry → List Entry → Prop}
    (added : ∀ news, motive [] news)
    (removed : ∀ o olds, motive olds [] → motive (o :: olds) [])
    (before : ∀ o olds n news, compare o n = .lt → motive olds (n :: news) →
      motive (o :: olds) (n :: news))
    (after : ∀ o olds n news, compare o n = .gt → motive (o :: olds) news →
      motive (o :: olds) (n :: news))
    (met : ∀ o olds n news, compare o n = .eq → motive olds news → motive (o :: olds) (n :: news))
    (olds news : List Entry) : motive olds news := by
  induction olds generalizing news with
  | nil => exact added news
  | cons o olds outer =>
    induction news with
    | nil => exact removed o olds (outer [])
    | cons n news inner =>
      cases order : compare o n with
      | lt => exact before o olds n news order (outer (n :: news))
      | gt => exact after o olds n news order inner
      | eq => exact met o olds n news order (outer news)

theorem same_of_compare (met : compare o n = .eq) : o.path.components = n.path.components :=
  Path.compare_eq_iff.mp met

theorem other_of_lt (before : compare o n = .lt) : o.path.components ≠ n.path.components := by
  intro same
  have met : compare o n = .eq := Path.compare_eq_iff.mpr same
  rw [met] at before
  cases before

instance : Std.TransOrd Entry := inferInstanceAs (Std.TransCmp (compareOn Entry.path))

theorem Sorted.head_lt (h : Sorted (o :: olds)) (found : e ∈ olds) : compare o e = .lt :=
  (List.pairwise_cons.mp h).1 e found

theorem Sorted.tail (h : Sorted (o :: olds)) : Sorted olds := (List.pairwise_cons.mp h).2

theorem Sorted.lt_all (h : Sorted (n :: news)) (before : compare o n = .lt) (found : e ∈ n :: news) :
    compare o e = .lt := by
  rcases List.mem_cons.mp found with rfl | later
  · exact before
  · exact Std.TransCmp.lt_trans before (h.head_lt later)

theorem compareEntries_path (told : c ∈ compareEntries o n) (same : o.path.components = n.path.components) :
    c.path.components = n.path.components := by
  unfold compareEntries at told
  split at told
  · rcases List.mem_pair.mp told with rfl | rfl
    · exact same
    · rfl
  · split at told
    · rw [List.mem_singleton.mp told]
      rfl
    · cases told

theorem merge_path (told : c ∈ merge olds news) :
    (∃ o ∈ olds, c.path.components = o.path.components) ∨
      ∃ n ∈ news, c.path.components = n.path.components := by
  induction olds, news using merge_induct with
  | added news =>
    obtain ⟨n, found, rfl⟩ := List.mem_map.mp told
    exact .inr ⟨n, found, rfl⟩
  | removed o olds ih =>
    rw [merge_done] at told
    rcases List.mem_cons.mp told with rfl | later
    · exact .inl ⟨o, List.mem_cons_self, rfl⟩
    · exact (ih later).imp_left List.exists_mem_cons_of_exists
  | before o olds n news order ih =>
    rw [merge_lt order] at told
    rcases List.mem_cons.mp told with rfl | later
    · exact .inl ⟨o, List.mem_cons_self, rfl⟩
    · exact (ih later).imp_left List.exists_mem_cons_of_exists
  | after o olds n news order ih =>
    rw [merge_gt order] at told
    rcases List.mem_cons.mp told with rfl | later
    · exact .inr ⟨n, List.mem_cons_self, rfl⟩
    · exact (ih later).imp_right List.exists_mem_cons_of_exists
  | met o olds n news order ih =>
    rw [merge_eq order] at told
    rcases List.mem_append.mp told with here | later
    · exact .inr ⟨n, List.mem_cons_self, compareEntries_path here (same_of_compare order)⟩
    · exact (ih later).imp List.exists_mem_cons_of_exists List.exists_mem_cons_of_exists

-- The state of a snapshot before the walk: it holds the first list, and nothing else at the paths of
-- the second.
structure Holds (r : Snapshot) (olds news : List Entry) : Prop where
  old : ∀ o ∈ olds, ∃ k, r.get? o.path = some k ∧ k.differs o = false
  new : ∀ n ∈ news, (∀ o ∈ olds, o.path.components ≠ n.path.components) → r.get? n.path = none

theorem Holds.remove (h : r.Holds (o :: olds) news) (sorted : Sorted (o :: olds))
    (only : ∀ n ∈ news, o.path.components ≠ n.path.components) : (r.remove o.path).Holds olds news := by
  constructor
  · intro k found
    rw [get?_remove_other (other_of_lt (sorted.head_lt found)).symm]
    exact h.old k (List.mem_cons_of_mem _ found)
  · intro n found absent
    rw [get?_remove_other (only n found).symm]
    apply h.new n found
    intro k listed
    rcases List.mem_cons.mp listed with rfl | later
    · exact only n found
    · exact absent k later

theorem Holds.insert (h : r.Holds olds (n :: news)) (sorted : Sorted (n :: news))
    (only : ∀ o ∈ olds, o.path.components ≠ n.path.components) : (r.insert n).Holds olds news := by
  constructor
  · intro k found
    rw [get?_insert_other (only k found)]
    exact h.old k found
  · intro m found absent
    rw [get?_insert_other (other_of_lt (sorted.head_lt found)).symm]
    exact h.new m (List.mem_cons_of_mem _ found) absent

theorem Holds.later (h : r.Holds (o :: olds) (n :: news)) (left : Sorted (o :: olds))
    (right : Sorted (n :: news)) (same : o.path.components = n.path.components)
    (frame : ∀ p : Path, p.components ≠ n.path.components → s.get? p = r.get? p) : s.Holds olds news := by
  constructor
  · intro k found
    have other := other_of_lt (left.head_lt found)
    rw [frame k.path fun here => other (same.trans here.symm)]
    exact h.old k (List.mem_cons_of_mem _ found)
  · intro m found absent
    have other := other_of_lt (right.head_lt found)
    rw [frame m.path other.symm]
    apply h.new m (List.mem_cons_of_mem _ found)
    intro k listed
    rcases List.mem_cons.mp listed with rfl | later
    · exact fun here => other (same.symm.trans here)
    · exact absent k later

theorem Holds.head (h : r.Holds (o :: olds) news) : ∃ k, r.get? o.path = some k ∧ k.differs o = false :=
  h.old o List.mem_cons_self

theorem accepts_compareEntries (same : o.path.components = n.path.components)
    (known : ∃ k, r.get? o.path = some k ∧ k.differs o = false) : r.Accepts (compareEntries o n) := by
  unfold compareEntries
  split
  · exact ⟨known, get?_remove_same same.symm, trivial⟩
  · rename_i kinds
    have kinds : o.isDirectory = n.isDirectory := by simpa using kinds
    split
    · rename_i changed
      obtain ⟨k, found, alike⟩ := known
      obtain ⟨file, plain, other⟩ := Entry.file_of_differs kinds changed
      obtain ⟨kind, data⟩ := Entry.differs_eq_false_iff.mp alike
      obtain ⟨written, size⟩ := data.resolve_left (by simp [kind, file])
      refine ⟨⟨k, ?_, kind.trans file, plain, ?_⟩, trivial⟩
      · rw [get?_congr (show (Change.modified n).path.components = o.path.components from same.symm)]
        exact found
      · rw [written, size]
        exact other
    · trivial

theorem frame_compareEntries (same : o.path.components = n.path.components)
    (other : p.components ≠ n.path.components) : (r.replayAll (compareEntries o n)).get? p = r.get? p :=
  get?_replayAll_other fun _ told here => other (here.trans (compareEntries_path told same))

theorem get?_compareEntries (here : p.components = n.path.components) :
    (r.replayAll (compareEntries o n)).get? p = some n ∨
      (r.replayAll (compareEntries o n)).get? p = r.get? p ∧ o.differs n = false := by
  unfold compareEntries
  split
  · exact .inl (get?_insert_same here)
  · split
    · exact .inl (get?_insert_same here)
    · rename_i unchanged
      exact .inr ⟨rfl, by simpa using unchanged⟩

theorem accepts_merge (left : Sorted olds) (right : Sorted news) (h : r.Holds olds news) :
    r.Accepts (merge olds news) := by
  induction olds, news using merge_induct generalizing r with
  | added news => exact (replays_added right.apart fun n found => h.new n found (by simp)).accepts
  | removed o olds ih => exact ⟨h.head, ih left.tail right (h.remove left (by simp))⟩
  | before o olds n news order ih =>
    rw [merge_lt order]
    have only : ∀ m ∈ n :: news, o.path.components ≠ m.path.components :=
      fun m found => other_of_lt (right.lt_all order found)
    exact ⟨h.head, ih left.tail right (h.remove left only)⟩
  | after o olds n news order ih =>
    rw [merge_gt order]
    have only : ∀ k ∈ o :: olds, k.path.components ≠ n.path.components :=
      fun k found => (other_of_lt (left.lt_all (Std.OrientedCmp.lt_of_gt order) found)).symm
    exact ⟨h.new n List.mem_cons_self only, ih left right.tail (h.insert right only)⟩
  | met o olds n news order ih =>
    have same := same_of_compare order
    rw [merge_eq order]
    refine accepts_append.mpr ⟨accepts_compareEntries same h.head, ih left.tail right.tail ?_⟩
    exact h.later left right same fun p other => frame_compareEntries same other

theorem get?_merge_outside (old : ∀ o ∈ olds, p.components ≠ o.path.components)
    (new : ∀ n ∈ news, p.components ≠ n.path.components) :
    (r.replayAll (merge olds news)).get? p = r.get? p := by
  apply get?_replayAll_other
  intro c told here
  rcases merge_path told with ⟨o, found, same⟩ | ⟨n, found, same⟩
  · exact old o found (here.trans same)
  · exact new n found (here.trans same)

-- Once the first entry is removed, nothing is found at a path of the first list, if the rest of the walk
-- leaves nothing at the paths of the others.
theorem get?_merge_removed (old : ∃ k ∈ o :: olds, p.components = k.path.components)
    (new : ∀ n ∈ news, p.components ≠ n.path.components)
    (rest : (∃ k ∈ olds, p.components = k.path.components) →
      ((r.remove o.path).replayAll (merge olds news)).get? p = none) :
    ((r.remove o.path).replayAll (merge olds news)).get? p = none := by
  by_cases later : ∃ k ∈ olds, p.components = k.path.components
  · exact rest later
  · obtain ⟨k, found, same⟩ := old
    rcases List.mem_cons.mp found with rfl | found
    · rw [get?_merge_outside (fun m listed here => later ⟨m, listed, here⟩) new]
      exact get?_remove_same same
    · exact absurd ⟨k, found, same⟩ later

theorem get?_merge_old (old : ∃ o ∈ olds, p.components = o.path.components)
    (new : ∀ n ∈ news, p.components ≠ n.path.components) :
    (r.replayAll (merge olds news)).get? p = none := by
  induction olds, news using merge_induct generalizing r with
  | added news => simp at old
  | removed o olds ih =>
    rw [merge_done, replayAll_cons]
    exact get?_merge_removed old new fun later => ih later new
  | before o olds n news order ih =>
    rw [merge_lt order, replayAll_cons]
    exact get?_merge_removed old new fun later => ih later new
  | after o olds n news order ih =>
    rw [merge_gt order, replayAll_cons]
    exact ih old fun m found => new m (List.mem_cons_of_mem _ found)
  | met o olds n news order ih =>
    rw [merge_eq order, replayAll_append]
    obtain ⟨k, found, same⟩ := old
    rcases List.mem_cons.mp found with rfl | found
    · exact absurd (same.trans (same_of_compare order)) (new n List.mem_cons_self)
    · exact ih ⟨k, found, same⟩ fun m listed =>
        new m (List.mem_cons_of_mem _ listed)

theorem get?_merge_new (left : Sorted olds) (right : Sorted news) (found : n ∈ news)
    (here : p.components = n.path.components) :
    (r.replayAll (merge olds news)).get? p = some n ∨
      (r.replayAll (merge olds news)).get? p = r.get? p ∧
        ∃ o ∈ olds, p.components = o.path.components ∧ o.differs n = false := by
  induction olds, news using merge_induct generalizing r with
  | added news =>
    rw [merge_nil, replayAll_added]
    exact .inl (get?_insertAll_mem right.apart found here)
  | removed o olds ih => cases found
  | before o olds m news order ih =>
    rw [merge_lt order, replayAll_cons]
    have other : p.components ≠ o.path.components :=
      fun same => other_of_lt (right.lt_all order found) (same.symm.trans here)
    have frame : (r.replay (.removed o)).get? p = r.get? p := get?_remove_other other
    rcases ih left.tail right found with new | ⟨kept, k, listed, rest⟩
    · exact .inl new
    · exact .inr ⟨kept.trans frame, k, List.mem_cons_of_mem _ listed, rest⟩
  | after o olds m news order ih =>
    rw [merge_gt order, replayAll_cons]
    rcases List.mem_cons.mp found with rfl | later
    · left
      rw [get?_merge_outside]
      · exact get?_insert_same here
      · intro k listed same
        have before := left.lt_all (Std.OrientedCmp.lt_of_gt order) listed
        exact other_of_lt before (here.symm.trans same)
      · intro k listed same
        exact other_of_lt (right.head_lt listed) (here.symm.trans same)
    · have other : p.components ≠ m.path.components :=
        fun same => other_of_lt (right.head_lt later) (same.symm.trans here)
      have frame : (r.replay (.added m)).get? p = r.get? p := get?_insert_other other
      rcases ih left right.tail later with new | ⟨kept, rest⟩
      · exact .inl new
      · exact .inr ⟨kept.trans frame, rest⟩
  | met o olds m news order ih =>
    have same := same_of_compare order
    rw [merge_eq order, replayAll_append]
    rcases List.mem_cons.mp found with rfl | later
    · rw [get?_merge_outside]
      · rcases get?_compareEntries (r := r) (o := o) here with new | ⟨kept, alike⟩
        · exact .inl new
        · exact .inr ⟨kept, o, List.mem_cons_self, here.trans same.symm, alike⟩
      · intro k listed met
        exact other_of_lt (left.head_lt listed) (same.trans (here.symm.trans met))
      · intro k listed met
        exact other_of_lt (right.head_lt listed) (here.symm.trans met)
    · have other : p.components ≠ m.path.components :=
        fun met => other_of_lt (right.head_lt later) (met.symm.trans here)
      rcases ih left.tail right.tail later with new | ⟨kept, k, listed, rest⟩
      · exact .inl new
      · exact .inr ⟨kept.trans (frame_compareEntries same other), k, List.mem_cons_of_mem _ listed, rest⟩

theorem merge_eq_nil (left : Sorted olds) (right : Sorted news)
    (old : ∀ o ∈ olds, ∃ n ∈ news, o.path.components = n.path.components ∧ o.differs n = false)
    (new : ∀ n ∈ news, ∃ o ∈ olds, o.path.components = n.path.components) : merge olds news = [] := by
  induction olds, news using merge_induct with
  | added news =>
    cases news with
    | nil => rfl
    | cons n news =>
      obtain ⟨o, found, _⟩ := new n List.mem_cons_self
      cases found
  | removed o olds ih =>
    obtain ⟨n, found, _⟩ := old o List.mem_cons_self
    cases found
  | before o olds n news order ih =>
    obtain ⟨m, found, same, _⟩ := old o List.mem_cons_self
    exact absurd same (other_of_lt (right.lt_all order found))
  | after o olds n news order ih =>
    obtain ⟨k, found, same⟩ := new n List.mem_cons_self
    have before := left.lt_all (Std.OrientedCmp.lt_of_gt order) found
    exact absurd same.symm (other_of_lt before)
  | met o olds n news order ih =>
    have same := same_of_compare order
    obtain ⟨m, found, met, alike⟩ := old o List.mem_cons_self
    have here : m = n := by
      rcases List.mem_cons.mp found with rfl | later
      · rfl
      · exact absurd (same.symm.trans met) (other_of_lt (right.head_lt later))
    subst here
    have none : compareEntries o m = [] := by
      have kinds := Entry.isDirectory_of_differs alike
      simp [compareEntries, kinds, alike]
    rw [merge_eq order, none, List.nil_append]
    apply ih left.tail right.tail
    · intro k listed
      obtain ⟨l, found, equal, rest⟩ := old k (List.mem_cons_of_mem _ listed)
      refine ⟨l, ?_, equal, rest⟩
      rcases List.mem_cons.mp found with rfl | later
      · exact absurd (same.trans equal.symm) (other_of_lt (left.head_lt listed))
      · exact later
    · intro l listed
      obtain ⟨k, found, equal⟩ := new l (List.mem_cons_of_mem _ listed)
      refine ⟨k, ?_, equal⟩
      rcases List.mem_cons.mp found with rfl | later
      · exact absurd (same.symm.trans equal) (other_of_lt (right.head_lt listed))
      · exact later

theorem Keyed.holds (left : s.Keyed) (news : List Entry) : s.Holds s.entries news := by
  constructor
  · intro o found
    exact ⟨o, left.mem_entries_iff.mp found, o.differs_self⟩
  · intro n _ absent
    by_contra present
    obtain ⟨e, found⟩ := Option.ne_none_iff_exists'.mp present
    exact absent e (left.mem_entries found) (left n.path e found)

theorem matches_replay_diff (left : s.Keyed) (right : t.Keyed) :
    (s.replayAll (s.diff t)).Matches t := by
  intro p
  cases found : t.get? p with
  | some n =>
    have listed := right.mem_entries found
    have here := (right p n found).symm
    rcases get?_merge_new (r := s) left.sorted_entries right.sorted_entries listed here with
      new | ⟨kept, o, member, same, alike⟩
    · exact .of_eq new
    · have known : s.get? p = some o := by
        rw [get?_congr same]
        exact left.mem_entries_iff.mp member
      rw [show (s.replayAll (s.diff t)).get? p = s.get? p from kept, known]
      exact alike
  | none =>
    have new : ∀ n ∈ t.entries, p.components ≠ n.path.components := by
      intro n member same
      have known := right.mem_entries_iff.mp member
      rw [← get?_congr same, found] at known
      cases known
    by_cases old : ∃ o ∈ s.entries, p.components = o.path.components
    · exact .of_eq (get?_merge_old old new)
    · have absent : s.get? p = none := by
        by_contra present
        obtain ⟨e, known⟩ := Option.ne_none_iff_exists'.mp present
        exact old ⟨e, left.mem_entries known, (left p e known).symm⟩
      have kept : (s.replayAll (s.diff t)).get? p = s.get? p :=
        get?_merge_outside (fun o member same => old ⟨o, member, same⟩) new
      exact .of_eq (kept.trans absent)

theorem replays_diff (left : s.Keyed) (right : t.Keyed) : Replays s (s.diff t) t :=
  ⟨accepts_merge left.sorted_entries right.sorted_entries (left.holds _), matches_replay_diff left right⟩

theorem agrees_iff (left : s.Keyed) (right : t.Keyed) : s.agrees t = true ↔ s.Matches t := by
  unfold agrees
  rw [List.isEmpty_iff]
  constructor
  · intro none
    have leads := matches_replay_diff left right
    rwa [none] at leads
  · intro same
    apply merge_eq_nil left.sorted_entries right.sorted_entries
    · intro o member
      have here := same o.path
      rw [left.mem_entries_iff.mp member] at here
      obtain ⟨n, found, alike⟩ := here.some_left
      exact ⟨n, right.mem_entries found, (right o.path n found).symm, alike⟩
    · intro n member
      have here := same n.path
      rw [right.mem_entries_iff.mp member] at here
      obtain ⟨o, found, _⟩ := here.some_right
      exact ⟨o, left.mem_entries found, left n.path o found⟩

end DirWatch.Snapshot
