import DirWatch.Proofs.Path.Order
import DirWatch.Proofs.Snapshot.Keyed

namespace DirWatch.Snapshot

variable {s t : Snapshot} {p q dir : Path} {e : Entry} {es : List Entry} {items : List Item} {item : Item}

section Lists

variable {α : Type} {keep early inside : α → Bool} {l : List α}

theorem takeWhile_eq_filter (front : l.Pairwise fun x y => keep y = true → keep x = true) :
    l.takeWhile keep = l.filter keep := by
  induction l with
  | nil => rfl
  | cons x rest ih =>
    obtain ⟨first, later⟩ := List.pairwise_cons.mp front
    cases kept : keep x with
    | true => rw [List.takeWhile_cons_of_pos kept, List.filter_cons_of_pos kept, ih later]
    | false =>
      have none : rest.filter keep = [] := List.filter_eq_nil_iff.mpr fun y listed found => by
        rw [first y listed found] at kept
        cases kept
      rw [List.takeWhile_cons_of_neg (by simp [kept]), List.filter_cons_of_neg (by simp [kept]), none]

theorem dropWhile_eq_filter (front : l.Pairwise fun x y => early y = true → early x = true) :
    l.dropWhile early = l.filter fun x => !early x := by
  induction l with
  | nil => rfl
  | cons x rest ih =>
    obtain ⟨first, later⟩ := List.pairwise_cons.mp front
    cases kept : early x with
    | true => rw [List.dropWhile_cons_of_pos kept, List.filter_cons_of_neg (by simp [kept]), ih later]
    | false =>
      have all : rest.filter (fun y => !early y) = rest := List.filter_eq_self.mpr fun y listed => by
        by_contra found
        rw [first y listed (by simpa using found)] at kept
        cases kept
      rw [List.dropWhile_cons_of_neg (by simp [kept]), List.filter_cons_of_pos (by simp [kept]), all]

-- A search from where it stops being too early to where it is inside no more meets all that is inside.
theorem search_eq_filter (front : l.Pairwise fun x y => early y = true → early x = true)
    (block : l.Pairwise fun x y => early x = false → inside y = true → inside x = true) :
    (l.dropWhile early).takeWhile inside = l.filter fun x => inside x && !early x := by
  rw [dropWhile_eq_filter front, takeWhile_eq_filter, List.filter_filter]
  refine (block.filter _).imp_of_mem fun {x y} here _ within => within ?_
  simpa using (List.mem_filter.mp here).2

end Lists

def searchSubtree (s : Snapshot) (p : Path) : List Item :=
  (s.items.dropWhile fun item => compare item.key p == .lt).takeWhile fun item => item.key.startsWith p

def searchBelow (s : Snapshot) (dir : Path) : List Item :=
  (s.items.dropWhile fun item => compare item.key dir != .gt).takeWhile fun item => item.key.startsWith dir

theorem searchSubtree_eq : s.searchSubtree p = s.items.filter fun item => item.key.startsWith p := by
  unfold searchSubtree
  rw [search_eq_filter]
  · refine List.filter_congr fun item _ => ?_
    cases below : item.key.startsWith p with
    | false => rfl
    | true => simp [Path.compare_of_startsWith below]
  · refine s.ordered.imp fun {a b} before early => ?_
    simp only [beq_iff_eq] at *
    exact Std.TransCmp.lt_trans before early
  · refine s.ordered.imp fun {a b} before reached down => Path.startsWith_of_between down (fun early => ?_) before
    have less : compare a.key p = .lt := Std.OrientedCmp.lt_of_gt early
    simp [less] at reached

theorem searchBelow_eq : s.searchBelow dir =
    s.items.filter fun item => item.key.startsWith dir && compare dir item.key != .eq := by
  unfold searchBelow
  rw [search_eq_filter]
  · refine List.filter_congr fun item _ => ?_
    cases below : item.key.startsWith dir with
    | false => rfl
    | true =>
      have reached := Path.compare_of_startsWith below
      have turned : compare item.key dir = (compare dir item.key).swap := Std.OrientedCmp.eq_swap
      rw [turned] at reached ⊢
      cases place : compare dir item.key <;> simp_all
  · refine s.ordered.imp fun {a b} before early => ?_
    simp only [bne_iff_ne, ne_eq] at *
    intro later
    exact early (Std.OrientedCmp.gt_of_lt
      (Std.TransCmp.lt_trans (Std.OrientedCmp.lt_of_gt later) before))
  · refine s.ordered.imp fun {a b} before reached down => Path.startsWith_of_between down (fun early => ?_) before
    have less : compare a.key dir = .lt := Std.OrientedCmp.lt_of_gt early
    simp [less] at reached

def removeEach (s : Snapshot) : List Path → Snapshot × List Entry
  | [] => (s, [])
  | key :: rest =>
    let (t, gone) := (s.remove key).removeEach rest
    (t, (s.get? key).toList ++ gone)

theorem removeEach_items (keys : List Path) : (s.removeEach keys).1.items =
    s.items.filter fun item => keys.all fun key => compare key item.key != .eq := by
  induction keys generalizing s with
  | nil => simp [removeEach]
  | cons key rest ih =>
    change ((s.remove key).removeEach rest).1.items = _
    rw [ih]
    change (s.items.filter _).filter _ = _
    rw [List.filter_filter]
    exact List.filter_congr fun item _ => by simp [Bool.and_comm]

theorem removeEach_root (keys : List Path) : (s.removeEach keys).1.root = s.root := by
  induction keys generalizing s with
  | nil => rfl
  | cons key rest ih => exact ih

theorem removeEach_snd {keys : List Path} (apart : keys.Pairwise fun p q => p.components ≠ q.components) :
    (s.removeEach keys).2 = keys.filterMap s.get? := by
  induction keys generalizing s with
  | nil => rfl
  | cons key rest ih =>
    obtain ⟨alone, later⟩ := List.pairwise_cons.mp apart
    change (s.get? key).toList ++ ((s.remove key).removeEach rest).2 = _
    have same : rest.filterMap (s.remove key).get? = rest.filterMap s.get? :=
      List.filterMap_congr fun q listed => get?_remove_other (alone q listed).symm
    rw [ih later, same, List.filterMap_cons]
    cases s.get? key <;> rfl

theorem get?_key (listed : item ∈ s.items) : s.get? item.key = some item.entry :=
  get?_eq_some_iff.mpr ⟨item, listed, rfl, rfl⟩

theorem eq_of_items (rooted : s.root = t.root) (same : s.items = t.items) : s = t := by
  obtain ⟨_, _, _⟩ := s
  obtain ⟨_, _, _⟩ := t
  cases rooted
  cases same
  rfl

theorem removeEach_subtree (s : Snapshot) (p : Path) :
    s.removeEach ((s.searchSubtree p).map Item.key).reverse = (s.removeSubtree p, s.subtree p) := by
  rw [searchSubtree_eq]
  refine Prod.ext (eq_of_items (removeEach_root _) ?_) ?_
  · rw [removeEach_items]
    refine List.filter_congr fun item listed => ?_
    rw [List.all_reverse, List.all_map]
    cases below : item.key.startsWith p with
    | true =>
      refine List.all_eq_false.mpr ⟨item, List.mem_filter.mpr ⟨listed, below⟩, ?_⟩
      simp
    | false =>
      refine List.all_eq_true.mpr fun other inside => ?_
      have up := (List.mem_filter.mp inside).2
      refine bne_iff_ne.mpr fun same => ?_
      rw [Path.startsWith_iff, Path.compare_eq_iff.mp same, ← Path.startsWith_iff, below] at up
      cases up
  · have apart : (((s.items.filter fun item => item.key.startsWith p).map Item.key).reverse).Pairwise
        fun p q => p.components ≠ q.components := by
      refine List.pairwise_reverse.mpr (List.pairwise_map.mpr ((s.ordered.filter _).imp fun before same => ?_))
      rw [Path.compare_eq_iff.mpr same.symm] at before
      cases before
    rw [removeEach_snd apart]
    unfold subtree
    rw [List.filterMap_reverse, List.filterMap_map]
    congr 1
    rw [← List.filterMap_eq_map]
    exact List.filterMap_congr fun item listed => get?_key (List.mem_of_mem_filter listed)

theorem before_subtree {a b : Path} (early : compare a p = .lt) (inside : b.startsWith p = true) : compare a b = .lt := by
  cases place : compare p b with
  | lt => exact Std.TransCmp.lt_trans early place
  | eq => exact Std.TransCmp.lt_of_lt_of_eq early place
  | gt => exact absurd (Std.OrientedCmp.lt_of_gt place) (Path.compare_of_startsWith inside)

theorem after_subtree {a b : Path} (inside : a.startsWith p = true) (late : compare p b = .lt)
    (outside : b.startsWith p = false) : compare a b = .lt := by
  cases place : compare a b with
  | lt => rfl
  | eq =>
    rw [Path.startsWith, Path.compare_eq_iff.mp place, ← Path.startsWith, outside] at inside
    cases inside
  | gt =>
    have between := Path.startsWith_of_between inside (by simp [late]) (Std.OrientedCmp.lt_of_gt place)
    rw [outside] at between
    cases between

section Keyed

variable (keyed : s.Keyed)
include keyed

theorem Keyed.startsWith_item (listed : item ∈ s.items) : item.key.startsWith p = item.entry.path.startsWith p := by
  unfold Path.startsWith
  rw [keyed.of_item listed]

omit keyed in
theorem entries_filter {keep : Item → Bool} (kept : Entry → Bool)
    (same : ∀ item ∈ s.items, keep item = kept item.entry) :
    (s.items.filter keep).map Item.entry = s.entries.filter kept := by
  unfold entries
  rw [List.filter_map]
  exact congrArg _ (List.filter_congr same)

theorem Keyed.subtree_eq : s.subtree p = (s.entries.filter fun e => e.path.startsWith p).reverse := by
  unfold subtree
  rw [entries_filter (fun e => e.path.startsWith p) fun item listed => keyed.startsWith_item listed]

theorem Keyed.below_eq : s.below dir =
    s.entries.filter fun e => e.path.startsWith dir && compare dir e.path != .eq := by
  refine entries_filter _ fun item listed => ?_
  rw [keyed.startsWith_item listed, Bool.eq_iff_iff]
  simp only [Bool.and_eq_true, bne_iff_ne, ne_eq, Path.compare_eq_iff, keyed.of_item listed]

theorem Keyed.removeSubtree_entries : (s.removeSubtree p).entries =
    s.entries.filter fun e => !e.path.startsWith p :=
  entries_filter _ fun item listed => by rw [keyed.startsWith_item listed]

theorem Keyed.subtree_parts : s.entries.filter (fun e => e.path.startsWith p) = (s.get? p).toList ++ s.below p := by
  have sorted := keyed.sorted_entries.filter fun e => e.path.startsWith p
  refine Sorted.ext sorted ?_ fun e => ?_
  · refine List.pairwise_append.mpr ⟨?_, keyed.sorted_below, fun own here e below => ?_⟩
    · cases s.get? p <;> simp
    · have stood := keyed p own (Option.mem_toList.mp here)
      obtain ⟨_, up, proper⟩ := keyed.mem_below_iff.mp below
      rw [← stood] at up proper
      exact Path.compare_of_prefix up proper
  · rw [List.mem_filter, List.mem_append, Option.mem_toList, keyed.mem_entries_iff, keyed.mem_below_iff,
      Path.startsWith_iff]
    constructor
    · rintro ⟨found, up⟩
      by_cases same : p.components = e.path.components
      · exact .inl ((get?_congr same).trans found)
      · exact .inr ⟨found, up, same⟩
    · rintro (found | ⟨found, up, _⟩)
      · have same := keyed p e found
        exact ⟨(get?_congr same).trans found, same ▸ List.prefix_refl _⟩
      · exact ⟨found, up⟩

-- All that stands before the subtree of a path, and all that stands after it, is outside of it.
theorem Keyed.block (p : Path) : ∃ before after, s.entries = before ++ ((s.get? p).toList ++ s.below p) ++ after ∧
    ∀ e, e ∈ before ∨ e ∈ after → ¬p.components <+: e.path.components := by
  have sorted := keyed.sorted_entries
  rw [← keyed.subtree_parts]
  refine ⟨s.entries.filter fun e => compare e.path p == .lt,
    s.entries.filter fun e => compare p e.path == .lt && !e.path.startsWith p, ?_, fun e listed => ?_⟩
  · refine Sorted.ext sorted ?_ fun e => ?_
    · refine List.pairwise_append.mpr ⟨List.pairwise_append.mpr ⟨sorted.filter _, sorted.filter _, ?_⟩,
        sorted.filter _, ?_⟩
      · intro a first b second
        exact before_subtree (by simpa using (List.mem_filter.mp first).2) (List.mem_filter.mp second).2
      · intro a first b second
        obtain ⟨_, later⟩ := List.mem_filter.mp second
        simp only [Bool.and_eq_true, beq_iff_eq, Bool.not_eq_true'] at later
        rcases List.mem_append.mp first with early | inside
        · have less : compare a.path p = .lt := by simpa using (List.mem_filter.mp early).2
          exact Std.TransCmp.lt_trans less later.1
        · exact after_subtree (List.mem_filter.mp inside).2 later.1 later.2
    · simp only [List.mem_append, List.mem_filter, ← and_or_left, iff_self_and]
      intro _
      cases inside : e.path.startsWith p with
      | true => simp
      | false =>
        cases place : compare p e.path with
        | lt => simp
        | eq =>
          have same := Path.compare_eq_iff.mp place
          rw [← Bool.not_eq_true, Path.startsWith_iff, same] at inside
          exact absurd (List.prefix_refl _) inside
        | gt => simp [Std.OrientedCmp.lt_of_gt place]
  · intro up
    have inside := Path.startsWith_iff.mpr up
    rcases listed with first | last
    · have less : compare e.path p = .lt := by simpa using (List.mem_filter.mp first).2
      exact Path.compare_of_startsWith inside less
    · have outside := (List.mem_filter.mp last).2
      simp [inside] at outside

end Keyed

end DirWatch.Snapshot
