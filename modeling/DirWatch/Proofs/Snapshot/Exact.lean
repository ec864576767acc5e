import DirWatch.Proofs.Snapshot.Merge
import DirWatch.Proofs.Snapshot.Named
import Mathlib.Data.List.Nodup

namespace DirWatch

-- What there is to tell of a path where the first entry stood and the second one stands.
def Entry.difference : Option Entry → Option Entry → List Change
  | none, none => []
  | none, some n => [.added n]
  | some o, none => [.removed o]
  | some o, some n => Snapshot.compareEntries o n

namespace Snapshot

open Entry (difference)

variable {s t u : Snapshot} {p : Path} {e o n : Entry} {x y z : Option Entry} {es olds news : List Entry}
  {c : Change} {cs ds : List Change} {q names : List Name}

theorem difference_of_matches (h : Entry.Matches x y) : difference x y = [] := by
  cases x with
  | none =>
    rw [h.none_left]
    rfl
  | some o =>
    obtain ⟨n, rfl, alike⟩ := h.some_left
    simp [difference, compareEntries, Entry.isDirectory_of_differs alike, alike]

theorem difference_self : difference x x = [] := difference_of_matches .rfl

theorem difference_kept (stands : y = z ∨ y = x ∧ Entry.Matches x z) : difference x y = difference x z := by
  rcases stands with rfl | ⟨rfl, alike⟩
  · rfl
  · rw [difference_self, difference_of_matches alike]

theorem length_difference (kinds : ∀ o n, x = some o → y = some n → o.isDirectory = n.isDirectory) :
    (difference x y).length ≤ 1 := by
  cases x with
  | none => cases y <;> simp [difference]
  | some o =>
    cases y with
    | none => simp [difference]
    | some n =>
      simp only [difference, compareEntries, kinds o n rfl rfl, bne_self_eq_false, Bool.false_eq_true, if_false]
      split <;> simp

def about (p : Path) (cs : List Change) : List Change := cs.filter fun c => c.path.components = p.components

def among (p : Path) (es : List Entry) : Option Entry := es.find? fun e => e.path.components = p.components

theorem about_congr {r : Path} (same : p.components = r.components) : about p cs = about r cs := by
  unfold about
  rw [same]

theorem about_append : about p (cs ++ ds) = about p cs ++ about p ds := List.filter_append _ _

theorem about_cons_same (here : c.path.components = p.components) : about p (c :: cs) = c :: about p cs :=
  List.filter_cons_of_pos (by simpa using here)

theorem about_cons_other (other : c.path.components ≠ p.components) : about p (c :: cs) = about p cs :=
  List.filter_cons_of_neg (by simpa using other)

theorem count_about : (about c.path cs).count c = cs.count c := List.count_filter (by simp)

theorem among_cons_same (here : e.path.components = p.components) : among p (e :: es) = some e :=
  List.find?_cons_of_pos (by simpa using here)

theorem among_cons_other (other : e.path.components ≠ p.components) : among p (e :: es) = among p es :=
  List.find?_cons_of_neg (by simpa using other)

theorem among_eq_none (absent : ∀ k ∈ es, k.path.components ≠ p.components) : among p es = none :=
  List.find?_eq_none.mpr fun k listed => by simpa using absent k listed

theorem among_eq_some_iff (apart : Apart es) :
    among p es = some e ↔ e ∈ es ∧ e.path.components = p.components := by
  induction es with
  | nil => simp [among]
  | cons k rest ih =>
    obtain ⟨alone, tail⟩ := List.pairwise_cons.mp apart
    by_cases here : k.path.components = p.components
    · rw [among_cons_same here, Option.some.injEq, List.mem_cons]
      constructor
      · rintro rfl
        exact ⟨.inl rfl, here⟩
      · rintro ⟨rfl | later, there⟩
        · rfl
        · exact absurd (here.trans there.symm) (alone e later)
    · rw [among_cons_other here, ih tail, List.mem_cons]
      constructor
      · exact fun ⟨listed, there⟩ => ⟨.inr listed, there⟩
      · rintro ⟨rfl | later, there⟩
        · exact absurd there here
        · exact ⟨later, there⟩

theorem among_eq_ite {here : Prop} [Decidable here] (apart : Apart es)
    (met : ∀ e, e ∈ es ∧ e.path.components = p.components ↔ here ∧ x = some e) :
    among p es = if here then x else none := by
  refine Option.ext fun e => ?_
  rw [among_eq_some_iff apart, met, Option.ite_none_right_eq_some]

theorem about_map {f : Entry → Change} (apart : Apart es) (keeps : ∀ e, (f e).path = e.path) :
    about p (es.map f) = (among p es).toList.map f := by
  induction es with
  | nil => rfl
  | cons e rest ih =>
    obtain ⟨alone, tail⟩ := List.pairwise_cons.mp apart
    by_cases here : e.path.components = p.components
    · have only : among p rest = none := among_eq_none fun k listed same => alone k listed (here.trans same.symm)
      rw [List.map_cons, about_cons_same ((keeps e).symm ▸ here), ih tail, only, among_cons_same here]
      rfl
    · rw [List.map_cons, about_cons_other ((keeps e).symm ▸ here), ih tail, among_cons_other here]

theorem about_added (apart : Apart es) : about p (es.map .added) = difference none (among p es) := by
  rw [about_map apart fun _ => rfl]
  cases among p es <;> rfl

theorem about_removed (apart : Apart es) : about p (es.map .removed) = difference (among p es) none := by
  rw [about_map apart fun _ => rfl]
  cases among p es <;> rfl

theorem about_compareEntries (same : o.path.components = n.path.components) :
    about p (compareEntries o n) = if n.path.components = p.components then compareEntries o n else [] := by
  split
  · rename_i here
    exact List.filter_eq_self.mpr fun c told => by simpa [compareEntries_path told same] using here
  · rename_i other
    exact List.filter_eq_nil_iff.mpr fun c told => by simpa [compareEntries_path told same] using other

theorem about_removed_cons (alone : ∀ k ∈ olds, o.path.components ≠ k.path.components)
    (only : o.path.components = p.components → y = none) (rest : about p cs = difference (among p olds) y) :
    about p (.removed o :: cs) = difference (among p (o :: olds)) y := by
  by_cases here : o.path.components = p.components
  · have none : among p olds = none := among_eq_none fun k listed same => alone k listed (here.trans same.symm)
    rw [none, only here] at rest
    rw [about_cons_same (c := .removed o) here, rest, among_cons_same here, only here]
    rfl
  · rw [about_cons_other (c := .removed o) here, rest, among_cons_other here]

theorem about_added_cons (alone : ∀ k ∈ news, n.path.components ≠ k.path.components)
    (only : n.path.components = p.components → x = none) (rest : about p cs = difference x (among p news)) :
    about p (.added n :: cs) = difference x (among p (n :: news)) := by
  by_cases here : n.path.components = p.components
  · have none : among p news = none := among_eq_none fun k listed same => alone k listed (here.trans same.symm)
    rw [none, only here] at rest
    rw [about_cons_same (c := .added n) here, rest, among_cons_same here, only here]
    rfl
  · rw [about_cons_other (c := .added n) here, rest, among_cons_other here]

-- The walk tells of each path what the two lists say about it.
theorem about_merge (left : Sorted olds) (right : Sorted news) :
    about p (merge olds news) = difference (among p olds) (among p news) := by
  induction olds, news using merge_induct with
  | added news => exact about_added right.apart
  | removed o olds ih =>
    rw [merge_done]
    exact about_removed_cons (fun k listed => other_of_lt (left.head_lt listed)) (fun _ => rfl)
      (ih left.tail right)
  | before o olds n news order ih =>
    rw [merge_lt order]
    refine about_removed_cons (fun k listed => other_of_lt (left.head_lt listed)) (fun here => ?_)
      (ih left.tail right)
    exact among_eq_none fun k listed same => other_of_lt (right.lt_all order listed) (here.trans same.symm)
  | after o olds n news order ih =>
    rw [merge_gt order]
    refine about_added_cons (fun k listed => other_of_lt (right.head_lt listed)) (fun here => ?_)
      (ih left right.tail)
    have before := Std.OrientedCmp.lt_of_gt order
    exact among_eq_none fun k listed same => other_of_lt (left.lt_all before listed) (here.trans same.symm)
  | met o olds n news order ih =>
    have same := same_of_compare order
    have rest := ih left.tail right.tail
    rw [merge_eq order, about_append, about_compareEntries same]
    by_cases here : n.path.components = p.components
    · -- neither list comes back to a path that both have left
      have old : among p olds = none := among_eq_none fun k listed met =>
        other_of_lt (left.head_lt listed) (same.trans (here.trans met.symm))
      have new : among p news = none :=
        among_eq_none fun k listed met => other_of_lt (right.head_lt listed) (here.trans met.symm)
      rw [old, new] at rest
      rw [if_pos here, rest, among_cons_same here, among_cons_same (same.trans here)]
      exact List.append_nil _
    · rw [if_neg here, rest, among_cons_other here, among_cons_other fun met => here (same.symm.trans met)]
      rfl

theorem Keyed.get?_iff (h : s.Keyed) :
    s.get? p = some e ↔ s.get? e.path = some e ∧ e.path.components = p.components := by
  constructor
  · intro found
    have here := h p e found
    exact ⟨(get?_congr here).trans found, here⟩
  · rintro ⟨found, here⟩
    exact (get?_congr here).symm.trans found

theorem Keyed.among_entries (h : s.Keyed) : among p s.entries = s.get? p := by
  refine Option.ext fun e => ?_
  rw [among_eq_some_iff h.sorted_entries.apart, h.mem_entries_iff, ← h.get?_iff]

-- All changes are about places below the root, and each place is told of as it changed.
structure Exact (s : Snapshot) (cs : List Change) (t : Snapshot) : Prop where
  named : ∀ c ∈ cs, ∃ q : List Name, c.path.components = q.map .name
  each : ∀ q, about (.ofNames q) cs = difference (s.at? q) (t.at? q)

theorem Exact.none (same : ∀ q, Entry.Matches (s.at? q) (t.at? q)) : Exact s [] t :=
  ⟨fun _ told => absurd told List.not_mem_nil, fun q => (difference_of_matches (same q)).symm⟩

theorem Exact.trans (one : Exact s cs t) (two : Exact t ds u)
    (once : ∀ q, t.at? q = s.at? q ∨ u.at? q = t.at? q) : Exact s (cs ++ ds) u := by
  refine ⟨fun c told => ?_, fun q => ?_⟩
  · exact (List.mem_append.mp told).elim (one.named c) (two.named c)
  · rw [about_append, one.each, two.each]
    rcases once q with same | same
    · rw [same, difference_self, List.nil_append]
    · rw [same, difference_self, List.append_nil]

theorem exact_merge (left : Sorted olds) (right : Sorted news)
    (below : ∀ e, e ∈ olds ∨ e ∈ news → ∃ q : List Name, e.path.components = q.map .name)
    (same : ∀ q, difference (among (.ofNames q) olds) (among (.ofNames q) news) =
      difference (s.at? q) (t.at? q)) : Exact s (merge olds news) t := by
  refine ⟨fun c told => ?_, fun q => (about_merge left right).trans (same q)⟩
  rcases merge_path told with ⟨o, listed, path⟩ | ⟨n, listed, path⟩
  · rw [path]
    exact below o (.inl listed)
  · rw [path]
    exact below n (.inr listed)

theorem exact_diff (left : s.Keyed) (right : t.Keyed) (known : s.Named) (found : t.Named) :
    Exact s (s.diff t) t := by
  refine exact_merge left.sorted_entries right.sorted_entries (fun e listed => ?_) fun q => ?_
  · rcases listed with old | new
    · obtain ⟨q, _, parts⟩ := known _ e (left.mem_entries_iff.mp old)
      exact ⟨q, parts⟩
    · obtain ⟨q, _, parts⟩ := found _ e (right.mem_entries_iff.mp new)
      exact ⟨q, parts⟩
  · rw [left.among_entries, right.among_entries]
    rfl

theorem Exact.count (exact_ : Exact s cs t) (parts : c.path.components = q.map .name) :
    cs.count c = (difference (s.at? q) (t.at? q)).count c := by
  have here : c.path.components = (Path.ofNames q).components := parts.trans (Path.components_ofNames q).symm
  rw [← exact_.each, ← about_congr here, count_about]

theorem Exact.distinct (exact_ : Exact s cs t)
    (kinds : ∀ q o n, s.at? q = some o → t.at? q = some n → o.isDirectory = n.isDirectory) :
    (cs.map fun c => c.path.components).Nodup := by
  refine List.nodup_iff_count_le_one.mpr fun parts => ?_
  by_cases told : ∃ c ∈ cs, c.path.components = parts
  · obtain ⟨c, listed, rfl⟩ := told
    obtain ⟨q, here⟩ := exact_.named c listed
    have single := length_difference (kinds q)
    rw [← exact_.each, ← about_congr (here.trans (Path.components_ofNames q).symm)] at single
    calc (cs.map fun c => c.path.components).count c.path.components
        = (about c.path cs).length := by
          rw [List.count_eq_countP, List.countP_map, List.countP_eq_length_filter]
          exact congrArg List.length (List.filter_congr fun k _ => beq_eq_decide _ _)
      _ ≤ 1 := single
  · rw [List.count_eq_zero.mpr fun listed => told (List.mem_map.mp listed)]
    exact Nat.zero_le 1

theorem Exact.perm (one : Exact s cs t) (two : Exact s ds u)
    (same : ∀ q, difference (s.at? q) (t.at? q) = difference (s.at? q) (u.at? q)) : cs.Perm ds := by
  refine List.perm_iff_count.mpr fun c => ?_
  by_cases place : ∃ q : List Name, c.path.components = q.map .name
  · obtain ⟨q, parts⟩ := place
    rw [one.count parts, two.count parts, same]
  · rw [List.count_eq_zero.mpr fun told => place (one.named c told),
      List.count_eq_zero.mpr fun told => place (two.named c told)]

end Snapshot

end DirWatch
