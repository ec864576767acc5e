import DirWatch.Proofs.Snapshot.Exact

namespace DirWatch.Snapshot

open Entry (difference)

variable {s t : Snapshot} {p q : Path} {e o n : Entry} {x y : Option Entry} {es olds news a b : List Entry}
  {c : Change} {cs : List Change} {paths : List Path}

-- Snapshots as they come about: from an empty one on, under paths spelled in any way.
inductive Built : Snapshot → Prop
  | empty (root : Path) : Built (empty root)
  | insert {s : Snapshot} (e : Entry) : Built s → Built (s.insert e)
  | insertAll {s : Snapshot} (es : List Entry) : Built s → Built (s.insertAll es)
  | remove {s : Snapshot} (p : Path) : Built s → Built (s.remove p)
  | removeSubtree {s : Snapshot} (p : Path) : Built s → Built (s.removeSubtree p)

theorem Built.keyed (built : Built s) : s.Keyed := by
  induction built with
  | empty root => exact keyed_empty root
  | insert e _ ih => exact ih.insert
  | insertAll es _ ih => exact ih.insertAll
  | remove p _ ih => exact ih.remove
  | removeSubtree p _ ih => exact ih.removeSubtree

-- What is to be told of a path, by what stood there and what stands there.
inductive Tells : Option Entry → Option Entry → List Change → Prop
  | nowhere : Tells none none []
  | gone (o : Entry) : Tells (some o) none [.removed o]
  | new (n : Entry) : Tells none (some n) [.added n]
  | otherKind {o n : Entry} : o.isDirectory ≠ n.isDirectory → Tells (some o) (some n) [.removed o, .added n]
  | otherFile {o n : Entry} : o.isDirectory = false → n.isDirectory = false →
      o.size ≠ n.size ∨ o.written ≠ n.written → Tells (some o) (some n) [.modified n]
  | sameFile {o n : Entry} : o.isDirectory = false → n.isDirectory = false → o.size = n.size →
      o.written = n.written → Tells (some o) (some n) []
  | directory {o n : Entry} : o.isDirectory = true → n.isDirectory = true → Tells (some o) (some n) []

theorem tells_compareEntries (o n : Entry) : Tells (some o) (some n) (compareEntries o n) := by
  by_cases kinds : o.isDirectory = n.isDirectory
  · cases changed : o.differs n with
    | true =>
      obtain ⟨file, plain, other⟩ := Entry.file_of_differs kinds changed
      simpa [compareEntries, kinds, changed] using Tells.otherFile file plain other.symm
    | false =>
      obtain ⟨_, same⟩ := Entry.differs_eq_false_iff.mp changed
      have none : compareEntries o n = [] := by simp [compareEntries, kinds, changed]
      rw [none]
      cases dir : o.isDirectory with
      | true => exact .directory dir (kinds ▸ dir)
      | false =>
        have same := same.resolve_left (by simp [dir])
        exact .sameFile dir (kinds ▸ dir) same.2 same.1
  · simpa [compareEntries, kinds] using Tells.otherKind kinds

theorem tells_difference (x y : Option Entry) : Tells x y (difference x y) := by
  cases x with
  | none => cases y with
    | none => exact .nowhere
    | some n => exact .new n
  | some o => cases y with
    | none => exact .gone o
    | some n => exact tells_compareEntries o n

-- The changes `cs` are told along `paths`, which are those of the two lists, each of them once.
structure Along (olds news : List Entry) (cs : List Change) (paths : List Path) : Prop where
  increasing : paths.Pairwise fun p q => compare p q = .lt
  each : ∀ p, (∃ q ∈ paths, q.components = p.components) ↔
    (among p olds).isSome = true ∨ (among p news).isSome = true
  told : cs = paths.flatMap fun p => difference (among p olds) (among p news)

theorem exists_of_among (found : (among p es).isSome = true) : ∃ e ∈ es, e.path.components = p.components := by
  simpa [among] using found

theorem Along.cons (along : Along olds news cs paths)
    (first : ∀ e, e ∈ olds ∨ e ∈ news → compare q e.path = .lt)
    (old : ∀ p, p.components ≠ q.components → among p a = among p olds)
    (new : ∀ p, p.components ≠ q.components → among p b = among p news)
    (present : (among q a).isSome = true ∨ (among q b).isSome = true) :
    Along a b (difference (among q a) (among q b) ++ cs) (q :: paths) := by
  have before : ∀ r ∈ paths, compare q r = .lt := by
    intro r listed
    have found : ∃ e, (e ∈ olds ∨ e ∈ news) ∧ e.path.components = r.components := by
      rcases (along.each r).mp ⟨r, listed, rfl⟩ with there | there
      · obtain ⟨e, member, same⟩ := exists_of_among there
        exact ⟨e, .inl member, same⟩
      · obtain ⟨e, member, same⟩ := exists_of_among there
        exact ⟨e, .inr member, same⟩
    obtain ⟨e, member, same⟩ := found
    exact Std.TransCmp.lt_of_lt_of_eq (first e member) (Path.compare_eq_iff.mpr same)
  have other : ∀ r ∈ paths, r.components ≠ q.components := by
    intro r listed same
    have met := Path.compare_eq_iff.mpr same.symm
    simp [before r listed] at met
  refine ⟨List.pairwise_cons.mpr ⟨before, along.increasing⟩, fun p => ?_, ?_⟩
  · by_cases here : p.components = q.components
    · have present : (among p a).isSome = true ∨ (among p b).isSome = true := by
        simpa [among, here] using present
      exact iff_of_true ⟨q, List.mem_cons_self, here.symm⟩ present
    · rw [old p here, new p here, ← along.each p]
      simp [Ne.symm here]
  · rw [List.flatMap_cons, along.told]
    congr 1
    apply List.flatMap_congr
    intro r listed
    rw [old r (other r listed), new r (other r listed)]

theorem among_of_before (before : ∀ e ∈ es, compare q e.path = .lt) : among q es = none := by
  apply among_eq_none
  intro e listed same
  have met := Path.compare_eq_iff.mpr same.symm
  simp [before e listed] at met

theorem among_tail (e : Entry) (es : List Entry) :
    ∀ p : Path, p.components ≠ e.path.components → among p (e :: es) = among p es :=
  fun _ other => among_cons_other (Ne.symm other)

theorem exists_along (left : Sorted olds) (right : Sorted news) :
    ∃ paths, Along olds news (merge olds news) paths := by
  induction olds, news using merge_induct with
  | added news =>
    induction news with
    | nil => exact ⟨[], .nil, by simp [among], rfl⟩
    | cons n news ih =>
      obtain ⟨paths, along⟩ := ih right.tail
      refine ⟨n.path :: paths, ?_⟩
      have here : among n.path (n :: news) = some n := among_cons_same rfl
      have step := along.cons (q := n.path) (a := []) (fun e member => ?_) (fun _ _ => rfl)
        (among_tail n news) (by simp [here])
      · simpa [here, among, difference, merge_nil] using step
      · exact right.head_lt (member.resolve_left (by simp))
  | removed o olds ih =>
    obtain ⟨paths, along⟩ := ih left.tail right
    have here : among o.path (o :: olds) = some o := among_cons_same rfl
    have step := along.cons (q := o.path) (b := []) (fun e member => ?_) (among_tail o olds) (fun _ _ => rfl)
      (by simp [here])
    · refine ⟨o.path :: paths, ?_⟩
      simpa [here, among, difference, merge_done] using step
    · exact left.head_lt (member.resolve_right (by simp))
  | before o olds n news order ih =>
    obtain ⟨paths, along⟩ := ih left.tail right
    have here : among o.path (o :: olds) = some o := among_cons_same rfl
    have absent : among o.path (n :: news) = none := among_of_before fun e listed => right.lt_all order listed
    have step := along.cons (q := o.path) (fun e member => ?_) (among_tail o olds) (fun _ _ => rfl)
      (by simp [here])
    · refine ⟨o.path :: paths, ?_⟩
      rw [merge_lt order]
      simpa [here, absent, difference] using step
    · exact member.elim (fun old => left.head_lt old) fun new => right.lt_all order new
  | after o olds n news order ih =>
    have order' := Std.OrientedCmp.lt_of_gt order
    obtain ⟨paths, along⟩ := ih left right.tail
    have here : among n.path (n :: news) = some n := among_cons_same rfl
    have absent : among n.path (o :: olds) = none := among_of_before fun e listed => left.lt_all order' listed
    have step := along.cons (q := n.path) (fun e member => ?_) (fun _ _ => rfl) (among_tail n news)
      (by simp [here])
    · refine ⟨n.path :: paths, ?_⟩
      rw [merge_gt order]
      simpa [here, absent, difference] using step
    · exact member.elim (fun old => left.lt_all order' old) fun new => right.head_lt new
  | met o olds n news order ih =>
    have same := same_of_compare order
    obtain ⟨paths, along⟩ := ih left.tail right.tail
    have old : among n.path (o :: olds) = some o := among_cons_same same
    have new : among n.path (n :: news) = some n := among_cons_same rfl
    have step := along.cons (q := n.path) (fun e member => ?_)
      (fun p other => among_tail o olds p (same ▸ other)) (among_tail n news) (by simp [new])
    · refine ⟨n.path :: paths, ?_⟩
      rw [merge_eq order]
      simpa [old, new, difference] using step
    · refine member.elim (fun there => ?_) fun there => right.head_lt there
      exact Std.TransCmp.lt_of_eq_of_lt (Std.OrientedCmp.eq_symm order) (left.head_lt there)

-- Whether one list is compared with the other or the other with it, the same paths are told of.
theorem map_compareEntries (same : o.path.components = n.path.components) :
    (compareEntries n o).map (fun c => c.path.components) = (compareEntries o n).map fun c => c.path.components := by
  by_cases kinds : o.isDirectory = n.isDirectory
  · cases changed : o.differs n with
    | true => simp [compareEntries, kinds, changed, Entry.differs_comm n o, Change.path, Change.modified, same]
    | false => simp [compareEntries, kinds, changed, Entry.differs_comm n o]
  · simp [compareEntries, kinds, Ne.symm kinds, Change.path, Change.removed, Change.added, same]

theorem map_merge_swapped : (merge news olds).map (fun c => c.path.components) =
    (merge olds news).map fun c => c.path.components := by
  induction olds, news using merge_induct with
  | added news =>
    induction news with
    | nil => rfl
    | cons n news ih => simpa [merge_done, merge_nil, Change.path, Change.removed, Change.added] using ih
  | removed o olds ih => simpa [merge_done, merge_nil, Change.path, Change.removed, Change.added] using ih
  | before o olds n news order ih =>
    rw [merge_lt order, merge_gt (Std.OrientedCmp.gt_of_lt order)]
    simpa [Change.path, Change.removed, Change.added] using ih
  | after o olds n news order ih =>
    rw [merge_gt order, merge_lt (Std.OrientedCmp.lt_of_gt order)]
    simpa [Change.path, Change.removed, Change.added] using ih
  | met o olds n news order ih =>
    rw [merge_eq order, merge_eq (Std.OrientedCmp.eq_symm order)]
    simp [ih, map_compareEntries (same_of_compare order)]

theorem mem_diff_iff (left : s.Keyed) (right : t.Keyed) :
    c ∈ s.diff t ↔ c ∈ difference (s.get? c.path) (t.get? c.path) := by
  have about : about c.path (s.diff t) = difference (s.get? c.path) (t.get? c.path) := by
    rw [← left.among_entries, ← right.among_entries]
    exact about_merge left.sorted_entries right.sorted_entries
  rw [← about]
  simp [Snapshot.about]

theorem removed_mem_difference : .removed e ∈ difference y x ↔ .added e ∈ difference x y := by
  cases x with
  | none => cases y <;> simp [difference, Change.removed, Change.added]
  | some o =>
    cases y with
    | none => simp [difference, Change.removed, Change.added]
    | some n =>
      by_cases kinds : o.isDirectory = n.isDirectory
      · cases changed : o.differs n <;> simp [difference, compareEntries, kinds, changed, Entry.differs_comm n o,
          Change.removed, Change.added, Change.modified]
      · simp [difference, compareEntries, kinds, Ne.symm kinds, Change.removed, Change.added]

theorem removed_mem_diff (left : s.Keyed) (right : t.Keyed) : .removed e ∈ t.diff s ↔ .added e ∈ s.diff t := by
  rw [mem_diff_iff right left, mem_diff_iff left right]
  exact removed_mem_difference

-- The walk over two snapshots is exact: it goes through their paths in order and tells of each what there is to
-- tell, and that leads from the one to the other.
theorem diff_tells_each_path (left : Built s) (right : Built t) :
    (∃ (paths : List Path) (told : Path → List Change), paths.Pairwise (fun p q => compare p q = .lt) ∧
      (∀ p, (∃ q ∈ paths, q.components = p.components) ↔ s.contains p = true ∨ t.contains p = true) ∧
      (∀ p, Tells (s.get? p) (t.get? p) (told p)) ∧ s.diff t = paths.flatMap told) ∧
    (s.replayAll (s.diff t)).agrees t = true ∧
    (t.diff s).map (fun c => c.path.components) = (s.diff t).map (fun c => c.path.components) ∧
    (∀ e, (.removed e ∈ t.diff s ↔ .added e ∈ s.diff t) ∧ (.added e ∈ t.diff s ↔ .removed e ∈ s.diff t)) ∧
    Equivalence fun a b : { s : Snapshot // s.Built } => a.1.agrees b.1 = true := by
  have old := left.keyed
  have new := right.keyed
  obtain ⟨paths, along⟩ := exists_along old.sorted_entries new.sorted_entries
  refine ⟨⟨paths, fun p => difference (s.get? p) (t.get? p), along.increasing, fun p => ?_,
    fun p => tells_difference _ _, ?_⟩, ?_, map_merge_swapped, fun e => ⟨?_, ?_⟩, fun a => ?_, ?_, ?_⟩
  · rw [along.each, old.among_entries, new.among_entries]
    rfl
  · simp only [← old.among_entries, ← new.among_entries]
    exact along.told
  · exact (agrees_iff old.replayAll new).mpr (matches_replay_diff old new)
  · exact removed_mem_diff old new
  · exact (removed_mem_diff new old).symm
  · exact (agrees_iff a.2.keyed a.2.keyed).mpr (.refl a.1)
  · intro a b alike
    exact (agrees_iff b.2.keyed a.2.keyed).mpr ((agrees_iff a.2.keyed b.2.keyed).mp alike).symm
  · intro a b c one two
    have one := (agrees_iff a.2.keyed b.2.keyed).mp one
    have two := (agrees_iff b.2.keyed c.2.keyed).mp two
    exact (agrees_iff a.2.keyed c.2.keyed).mpr (one.trans two)

namespace Sample

-- A file `a` and a directory `b`, and later a longer file `a` and a file in place of the directory; each path
-- is spelled once with a slash at its end and once without.
def earlier : Snapshot :=
  ((empty ⟨[47, 119]⟩).insert ⟨⟨[97]⟩, false, none, 1⟩).insert ⟨⟨[98, 47]⟩, true, none, 0⟩

def later : Snapshot := (empty ⟨[47, 119]⟩).insertAll [⟨⟨[98]⟩, false, none, 3⟩, ⟨⟨[97, 47]⟩, false, none, 2⟩]

end Sample

theorem diff_tells_each_path_respelled : Sample.earlier.Built ∧ Sample.later.Built ∧
    Sample.earlier.diff Sample.later =
      [.modified ⟨⟨[97, 47]⟩, false, none, 2⟩, .removed ⟨⟨[98, 47]⟩, true, none, 0⟩,
        .added ⟨⟨[98]⟩, false, none, 3⟩] ∧
    (Sample.earlier.replayAll (Sample.earlier.diff Sample.later)).agrees Sample.later = true ∧
    .removed ⟨⟨[98]⟩, false, none, 3⟩ ∈ Sample.later.diff Sample.earlier := by
  have left : Sample.earlier.Built := ((Built.empty _).insert _).insert _
  have right : Sample.later.Built := (Built.empty _).insertAll _
  have told : Sample.earlier.diff Sample.later =
      [.modified ⟨⟨[97, 47]⟩, false, none, 2⟩, .removed ⟨⟨[98, 47]⟩, true, none, 0⟩,
        .added ⟨⟨[98]⟩, false, none, 3⟩] := by decide
  obtain ⟨_, leads, _, swapped, _⟩ := diff_tells_each_path left right
  refine ⟨left, right, told, leads, (swapped _).1.mpr ?_⟩
  rw [told]
  simp

end DirWatch.Snapshot
