import DirWatch.Proofs.Path.Names
import DirWatch.Scan

namespace DirWatch.Snapshot

variable {s t : Snapshot} {p q key dir : Path} {e k : Entry} {es : List Entry} {items : List Item}

theorem find?_congr (same : p.components = q.components) : find? p items = find? q items := by
  unfold find?
  congr
  funext item
  rw [Bool.eq_iff_iff, beq_iff_eq, beq_iff_eq, Path.compare_eq_iff, Path.compare_eq_iff, same]

theorem get?_congr (same : p.components = q.components) : s.get? p = s.get? q := by
  unfold get?
  rw [find?_congr same]

theorem find?_cons_same (item : Item) (same : p.components = item.key.components) :
    find? p (item :: items) = some item := by
  have found : (compare p item.key == .eq) = true := beq_iff_eq.mpr (Path.compare_eq_iff.mpr same)
  simp [find?, found]

theorem find?_cons_other (item : Item) (other : p.components ≠ item.key.components) :
    find? p (item :: items) = find? p items := by
  have missed : (compare p item.key == .eq) = false := by
    rw [beq_eq_false_iff_ne]
    exact fun same => other (Path.compare_eq_iff.mp same)
  simp [find?, missed]

theorem find?_put_same (same : p.components = key.components) :
    (find? p (put e key items)).map Item.entry = some e := by
  induction items with
  | nil => simp [put, find?_cons_same ⟨key, e⟩ same]
  | cons first rest ih =>
    unfold put
    split
    · simp [find?_cons_same ⟨key, e⟩ same]
    · rename_i here
      have met := Path.compare_eq_iff.mp here
      have found : find? p (⟨first.key, e⟩ :: rest) = some ⟨first.key, e⟩ :=
        find?_cons_same _ (same.trans met)
      rw [found]
      rfl
    · rename_i after
      have passed : p.components ≠ first.key.components := by
        intro met
        have equal := Path.compare_eq_iff.mpr (same.symm.trans met)
        rw [equal] at after
        cases after
      rw [find?_cons_other _ passed]
      exact ih

theorem find?_put_other (other : p.components ≠ key.components) :
    (find? p (put e key items)).map Item.entry = (find? p items).map Item.entry := by
  induction items with
  | nil => simp [put, find?_cons_other ⟨key, e⟩ other]
  | cons first rest ih =>
    unfold put
    split
    · rw [find?_cons_other _ other]
    · rename_i here
      have met := Path.compare_eq_iff.mp here
      have passed : p.components ≠ first.key.components := fun same => other (same.trans met.symm)
      rw [find?_cons_other ⟨first.key, e⟩ passed, find?_cons_other first passed]
    · by_cases same : p.components = first.key.components
      · rw [find?_cons_same _ same, find?_cons_same _ same]
      · rw [find?_cons_other _ same, find?_cons_other _ same]
        exact ih

@[simp]
theorem get?_empty (root : Path) : (empty root).get? p = none := rfl

theorem get?_insert_same (same : p.components = e.path.components) : (s.insert e).get? p = some e :=
  find?_put_same same

theorem get?_insert_other (other : p.components ≠ e.path.components) :
    (s.insert e).get? p = s.get? p :=
  find?_put_other other

@[simp]
theorem get?_insert_self : (s.insert e).get? e.path = some e := get?_insert_same rfl

-- A filter that treats all spellings of a path alike keeps its item or drops it.
theorem find?_filter {keep : Item → Bool} {b : Bool}
    (alike : ∀ item ∈ items, p.components = item.key.components → keep item = b) :
    find? p (items.filter keep) = if b then find? p items else none := by
  induction items with
  | nil => cases b <;> rfl
  | cons first rest ih =>
    have later := ih fun item found => alike item (List.mem_cons_of_mem _ found)
    by_cases same : p.components = first.key.components
    · have kept := alike first List.mem_cons_self same
      cases b with
      | true => rw [List.filter_cons_of_pos kept, find?_cons_same _ same, find?_cons_same _ same]; rfl
      | false => rw [List.filter_cons_of_neg (by simp [kept]), later]; rfl
    · rw [find?_cons_other _ same, ← later]
      cases kept : keep first with
      | true => rw [List.filter_cons_of_pos kept, find?_cons_other _ same]
      | false => rw [List.filter_cons_of_neg (by simp [kept])]

theorem get?_filtered {keep : Item → Bool} {b : Bool} (kept : t.items = s.items.filter keep)
    (alike : ∀ item ∈ s.items, p.components = item.key.components → keep item = b) :
    t.get? p = if b then s.get? p else none := by
  unfold get?
  rw [kept, find?_filter alike]
  cases b <;> rfl

theorem get?_remove_same (same : p.components = q.components) : (s.remove q).get? p = none := by
  refine get?_filtered (b := false) rfl fun item _ met => ?_
  simp [Path.compare_eq_iff.mpr (same.symm.trans met)]

theorem get?_remove_other (other : p.components ≠ q.components) : (s.remove q).get? p = s.get? p := by
  refine get?_filtered (b := true) rfl fun item _ met => ?_
  have missed : compare q item.key ≠ .eq := by
    intro same
    exact other (met.trans (Path.compare_eq_iff.mp same).symm)
  simpa using missed

theorem get?_removeSubtree_inside (inside : dir.components <+: p.components) :
    (s.removeSubtree dir).get? p = none := by
  refine get?_filtered (b := false) rfl fun item _ met => ?_
  rw [met, ← Path.startsWith_iff] at inside
  simp [inside]

theorem get?_removeSubtree_outside (outside : ¬dir.components <+: p.components) :
    (s.removeSubtree dir).get? p = s.get? p := by
  refine get?_filtered (b := true) rfl fun item _ met => ?_
  rw [met, ← Path.startsWith_iff] at outside
  simpa using outside

theorem get?_of_remove (found : (s.remove q).get? p = some e) : s.get? p = some e := by
  by_cases same : p.components = q.components
  · rw [get?_remove_same same] at found
    cases found
  · rwa [get?_remove_other same] at found

theorem get?_of_removeSubtree (found : (s.removeSubtree dir).get? p = some e) : s.get? p = some e := by
  by_cases inside : dir.components <+: p.components
  · rw [get?_removeSubtree_inside inside] at found
    cases found
  · rwa [get?_removeSubtree_outside inside] at found

theorem get?_eq_some_iff :
    s.get? p = some e ↔ ∃ item ∈ s.items, p.components = item.key.components ∧ item.entry = e := by
  obtain ⟨root, items, ordered⟩ := s
  simp only [get?]
  induction items with
  | nil => simp [find?]
  | cons first rest ih =>
    obtain ⟨before, tail⟩ := List.pairwise_cons.mp ordered
    by_cases same : p.components = first.key.components
    · rw [find?_cons_same _ same]
      constructor
      · intro found
        exact ⟨first, List.mem_cons_self, same, by simpa using found⟩
      · intro given
        obtain ⟨item, found, met, rfl⟩ := given
        rcases List.mem_cons.mp found with rfl | later
        · rfl
        · have equal := Path.compare_eq_iff.mpr (same.symm.trans met)
          rw [before item later] at equal
          cases equal
    · rw [find?_cons_other _ same, ih tail]
      constructor
      · intro given
        obtain ⟨item, found, rest⟩ := given
        exact ⟨item, List.mem_cons_of_mem _ found, rest⟩
      · intro given
        obtain ⟨item, found, met, rfl⟩ := given
        rcases List.mem_cons.mp found with rfl | later
        · exact absurd met same
        · exact ⟨item, later, met, rfl⟩

theorem contains_eq_false_iff : s.contains p = false ↔ s.get? p = none := by
  simp [contains]

def Apart (es : List Entry) : Prop := es.Pairwise fun a b => a.path.components ≠ b.path.components

theorem insertAll_cons : s.insertAll (e :: es) = (s.insert e).insertAll es := rfl

@[simp]
theorem insertAll_root : (s.insertAll es).root = s.root := by
  induction es generalizing s with
  | nil => rfl
  | cons e rest ih =>
    rw [insertAll_cons, ih]
    rfl

theorem get?_insertAll_other (other : ∀ e ∈ es, p.components ≠ e.path.components) :
    (s.insertAll es).get? p = s.get? p := by
  induction es generalizing s with
  | nil => rfl
  | cons e rest ih =>
    rw [insertAll_cons, ih fun k found => other k (List.mem_cons_of_mem _ found)]
    exact get?_insert_other (other e List.mem_cons_self)

theorem get?_insertAll_mem (apart : Apart es) (found : e ∈ es) (same : p.components = e.path.components) :
    (s.insertAll es).get? p = some e := by
  induction es generalizing s with
  | nil => cases found
  | cons first rest ih =>
    obtain ⟨alone, tail⟩ := List.pairwise_cons.mp apart
    rw [insertAll_cons]
    rcases List.mem_cons.mp found with rfl | later
    · rw [get?_insertAll_other fun k found => same ▸ alone k found]
      exact get?_insert_same same
    · exact ih tail later

theorem absorb_fst : (s.absorb es).1 = s.insertAll es := by
  induction es generalizing s with
  | nil => rfl
  | cons e rest ih => exact ih

theorem absorb_snd (apart : Apart es) :
    (s.absorb es).2 = (es.filter fun e => !s.contains e.path).map Entry.path := by
  induction es generalizing s with
  | nil => rfl
  | cons e rest ih =>
    obtain ⟨alone, tail⟩ := List.pairwise_cons.mp apart
    have before : rest.filter (fun k => !(s.insert e).contains k.path) =
        rest.filter fun k => !s.contains k.path := by
      apply List.filter_congr
      intro k found
      simp only [contains, get?_insert_other (alone k found).symm]
    have rest := ih (s := s.insert e) tail
    rw [before] at rest
    unfold absorb
    cases known : s.contains e.path with
    | true => simp [known, rest]
    | false => simp [known, rest]

end DirWatch.Snapshot
