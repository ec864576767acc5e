import DirWatch.Proofs.Path.Names

namespace DirWatch.Path

variable {a b c front : List Component} {m n : Name} {p q r dir : Path}

@[simp]
theorem compare_front (front a b : List Component) : compare (front ++ a) (front ++ b) = compare a b := by
  induction front with
  | nil => rfl
  | cons first rest ih =>
    have here : compare first first = .eq := Std.ReflCmp.compare_self
    rw [List.cons_append, List.cons_append, List.compare_eq_compareLex, List.compareLex_cons_cons, here,
      ← List.compare_eq_compareLex, ih]
    rfl

theorem compare_short (first : Component) (rest : List Component) : compare [] (first :: rest) = .lt := rfl

theorem compare_of_prefix (up : a <+: b) (proper : a ≠ b) : compare a b = .lt := by
  obtain ⟨more, rfl⟩ := up
  obtain ⟨first, rest, rfl⟩ : ∃ first rest, more = first :: rest :=
    List.exists_cons_of_ne_nil fun none => proper (by rw [none, List.append_nil])
  have same : compare (a ++ []) (a ++ first :: rest) = .lt := by rw [compare_front, compare_short]
  rwa [List.append_nil] at same

theorem compare_names (before : compare m n = .lt) (a b : List Component) :
    compare (.name m :: a) (.name n :: b) = .lt := by
  have less : compare (Component.name m) (Component.name n) = .lt := before
  rw [List.compare_eq_compareLex, List.compareLex_cons_cons, less]
  rfl

theorem prefix_of_between (one : front <+: a) (other : front <+: c) (after : compare a b = .lt)
    (before : compare b c = .lt) : front <+: b := by
  induction front generalizing a b c with
  | nil => exact List.nil_prefix
  | cons x front ih =>
    obtain ⟨a, rfl, left⟩ := List.cons_prefix_iff.mp one
    obtain ⟨c, rfl, right⟩ := List.cons_prefix_iff.mp other
    cases b with
    | nil => cases after
    | cons y b =>
      rw [List.compare_eq_compareLex, List.compareLex_cons_cons, Ordering.then_eq_lt] at after before
      have equal : y = x := by
        rcases after with less | ⟨same, _⟩
        · rcases before with more | ⟨same, _⟩
          · have back := Std.OrientedCmp.gt_of_lt less
            rw [more] at back
            cases back
          · exact Std.LawfulEqOrd.eq_of_compare same
        · exact (Std.LawfulEqOrd.eq_of_compare same).symm
      subst equal
      simp only [Std.ReflCmp.compare_self, true_and, reduceCtorEq, false_or] at after before
      exact List.cons_prefix_cons.mpr ⟨rfl, ih left right after before⟩

theorem compare_of_startsWith (below : p.startsWith dir = true) : compare p dir ≠ .lt := by
  intro before
  have after := Std.OrientedCmp.gt_of_lt before
  have up := startsWith_iff.mp below
  by_cases same : dir.components = p.components
  · rw [Path.compare_eq_iff.mpr same] at after
    cases after
  · have less : compare dir p = .lt := compare_of_prefix up same
    rw [less] at after
    cases after

theorem startsWith_of_between (down : r.startsWith dir = true) (after : compare dir q ≠ .gt)
    (before : compare q r = .lt) : q.startsWith dir = true := by
  rw [startsWith_iff] at *
  cases place : compare dir q with
  | lt => exact prefix_of_between (List.prefix_refl dir.components) down place before
  | eq => exact Path.compare_eq_iff.mp place ▸ List.prefix_refl _
  | gt => exact absurd place after

end DirWatch.Path
