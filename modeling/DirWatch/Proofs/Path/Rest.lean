import DirWatch.Proofs.Path.Join

namespace DirWatch.Path

variable {p root rest : Path} {pieces : List Bytes} {piece : Bytes} {n : Nat}

theorem filterMap_trimStart (pieces : List Bytes) :
    (trimStart pieces).filterMap Component.ofPiece? = pieces.filterMap Component.ofPiece? := by
  unfold trimStart
  induction pieces with
  | nil => rfl
  | cons piece rest ih =>
    cases empty : blank piece with
    | true =>
      have none : Component.ofPiece? piece = none := by simpa [blank] using empty
      rw [List.dropWhile_cons_of_pos empty, ih, List.filterMap_cons_none none]
    | false => rw [List.dropWhile_cons_of_neg (by simp [empty])]

theorem filterMap_trimEnd (pieces : List Bytes) :
    (trimEnd pieces).filterMap Component.ofPiece? = pieces.filterMap Component.ofPiece? := by
  have turned := filterMap_trimStart pieces.reverse
  unfold trimStart at turned
  unfold trimEnd
  rw [List.filterMap_reverse, turned, ← List.filterMap_reverse, List.reverse_reverse]

theorem filterMap_dropComponents (n : Nat) (pieces : List Bytes) :
    (dropComponents n pieces).filterMap Component.ofPiece? = (pieces.filterMap Component.ofPiece?).drop n := by
  induction pieces generalizing n with
  | nil => cases n <;> simp [dropComponents]
  | cons piece rest ih =>
    cases n with
    | zero => rfl
    | succ n =>
      cases part : Component.ofPiece? piece with
      | none => simp [dropComponents, blank, part, ih]
      | some c => simp [dropComponents, blank, part, ih]

theorem mem_of_mem_trimStart (found : piece ∈ trimStart pieces) : piece ∈ pieces :=
  (List.dropWhile_sublist blank).subset found

theorem mem_of_mem_trimEnd (found : piece ∈ trimEnd pieces) : piece ∈ pieces := by
  have turned := (List.dropWhile_sublist blank).subset (List.mem_reverse.mp found)
  exact List.mem_reverse.mp turned

theorem mem_of_mem_cons_trimEnd {first : Bytes} (found : piece ∈ first :: trimEnd pieces) : piece ∈ first :: pieces := by
  rcases List.mem_cons.mp found with rfl | later
  · exact List.mem_cons_self
  · exact List.mem_cons_of_mem first (mem_of_mem_trimEnd later)

theorem mem_of_mem_dropComponents (found : piece ∈ dropComponents n pieces) : piece ∈ pieces := by
  induction pieces generalizing n with
  | nil => cases n <;> cases found
  | cons first rest ih =>
    cases n with
    | zero => exact found
    | succ n =>
      unfold dropComponents at found
      split at found
      · exact List.mem_cons_of_mem first (ih found)
      · exact List.mem_cons_of_mem first (ih found)

theorem trimEnd_cons (full : blank piece = false) (pieces : List Bytes) :
    trimEnd (piece :: pieces) = piece :: trimEnd pieces := by
  unfold trimEnd
  rw [List.reverse_cons, List.dropWhile_append]
  split
  · rename_i none
    rw [List.isEmpty_iff.mp none, List.dropWhile_cons_of_neg (by simp [full])]
    rfl
  · simp

theorem components_unsplit (plain : ∀ piece ∈ pieces, (47 : UInt8) ∉ piece)
    (starts : ∀ piece more, pieces = piece :: more → blank piece = false) :
    (Path.mk (unsplit pieces)).components = pieces.filterMap Component.ofPiece? := by
  cases pieces with
  | nil => rfl
  | cons piece more =>
    have full := starts piece more rfl
    obtain ⟨b, bytes, shape⟩ : ∃ b bytes, piece = b :: bytes :=
      List.exists_cons_of_ne_nil fun none => by rw [none] at full; cases full
    have slash : b ≠ 47 := fun same => plain piece List.mem_cons_self (by simp [shape, same])
    have relative : (Path.mk (unsplit (piece :: more))).isAbsolute = false := by
      have head : (unsplit (piece :: more)).head? = some b := by
        cases more <;> simp [unsplit, shape]
      simpa [isAbsolute, head] using slash
    have dotless : leadingDot (piece :: more) = false := by
      unfold leadingDot
      split
      · rename_i same
        rw [(List.cons.inj same).1] at full
        cases full
      · rfl
    simp only [components, relative, split_unsplit (List.cons_ne_nil piece more) plain, dotless, Bool.false_eq_true,
      if_false]

theorem components_of_starts (starts : (p.isAbsolute || leadingDot (split p.bytes)) = true) :
    p.components = (if p.isAbsolute then .root else .here) :: (split p.bytes).tail.filterMap Component.ofPiece? := by
  have tail : (split p.bytes).tail.filterMap Component.ofPiece? = (split p.bytes).filterMap Component.ofPiece? := by
    rw [leadingDot_stem] at starts
    rw [filterMap_stem, ← filterMap_tail_of_starts starts]
    rcases split_eq_stem p with same | more
    · rw [same]
    · rw [more, List.tail_append_of_ne_nil (stem_ne_nil p), List.filterMap_append]
      exact List.append_nil _
  rw [tail]
  unfold components
  cases absolute : p.isAbsolute with
  | true => rfl
  | false =>
    rw [absolute, Bool.false_or] at starts
    simp [starts]

theorem components_of_plain (plain : (p.isAbsolute || leadingDot (split p.bytes)) = false) :
    p.components = (split p.bytes).filterMap Component.ofPiece? := by
  rw [Bool.or_eq_false_iff] at plain
  simp [components, plain.1, plain.2]

theorem full_of_plain (plain : (p.isAbsolute || leadingDot (split p.bytes)) = false) (nonempty : p.bytes ≠ [])
    {more : List Bytes} (shape : split p.bytes = piece :: more) : blank piece = false := by
  rw [Bool.or_eq_false_iff] at plain
  obtain ⟨b, bytes, whole⟩ := List.exists_cons_of_ne_nil nonempty
  have slash : b ≠ 47 := fun same => by simp [isAbsolute, whole, same] at plain
  obtain ⟨first, others, cut⟩ := List.exists_cons_of_ne_nil (split_ne_nil bytes)
  have parts : split p.bytes = (b :: first) :: others := by
    rw [whole]
    exact split_cons slash cut
  rw [parts] at shape plain
  obtain ⟨rfl, rfl⟩ := List.cons.inj shape
  by_contra empty
  have none : Component.ofPiece? (b :: first) = none := by simpa [blank] using empty
  rcases ofPiece?_eq_none (slash_notMem_split (parts ▸ List.mem_cons_self)) none with empty | dot
  · cases empty
  · have dotted := plain.2
    rw [dot] at dotted
    cases dotted

theorem components_trimmed (inside : ∀ piece ∈ pieces, piece ∈ split p.bytes) :
    (Path.mk (unsplit (trimEnd (trimStart pieces)))).components = pieces.filterMap Component.ofPiece? := by
  rw [components_unsplit, filterMap_trimEnd, filterMap_trimStart]
  · exact fun piece found => slash_notMem_split (inside piece (mem_of_mem_trimStart (mem_of_mem_trimEnd found)))
  · intro piece more shape
    cases front : trimStart pieces with
    | nil =>
      rw [front] at shape
      cases shape
    | cons first others =>
      have full : blank first = false := by
        have head := List.head?_dropWhile_not blank pieces
        rwa [show pieces.dropWhile blank = first :: others from front] at head
      rw [front, trimEnd_cons full] at shape
      obtain ⟨rfl, _⟩ := List.cons.inj shape
      exact full

theorem isAbsolute_iff : p.isAbsolute = true ↔ ∃ piece more, split p.bytes = [] :: piece :: more := by
  unfold isAbsolute
  cases p.bytes with
  | nil => simp [split]
  | cons b bytes =>
    obtain ⟨piece, more, cut⟩ := List.exists_cons_of_ne_nil (split_ne_nil bytes)
    by_cases slash : b = 47
    · subst slash
      exact iff_of_true rfl ⟨piece, more, by simp [split, cut]⟩
    · rw [split_cons slash cut]
      simp [slash]

theorem leadingDot_cons (piece : Bytes) (pieces more : List Bytes) :
    leadingDot (piece :: pieces) = leadingDot (piece :: more) := by
  unfold leadingDot
  split <;> split <;> simp_all

-- Below the empty path a path keeps its start, and with it all its components.
theorem components_whole (starts : (p.isAbsolute || leadingDot (split p.bytes)) = true) {more : List Bytes}
    (kept : trimEnd (split p.bytes).tail = piece :: more) :
    (Path.mk (unsplit ((split p.bytes).head?.getD [] :: piece :: more))).components = p.components := by
  obtain ⟨head, tail, shape⟩ := List.exists_cons_of_ne_nil (split_ne_nil p.bytes)
  rw [shape, List.tail_cons] at kept
  have plain : ∀ part ∈ head :: piece :: more, (47 : UInt8) ∉ part := by
    intro part found
    rw [← kept] at found
    have member : part ∈ split p.bytes := shape ▸ mem_of_mem_cons_trimEnd found
    exact slash_notMem_split member
  have whole : split (Path.mk (unsplit (head :: piece :: more))).bytes = head :: piece :: more :=
    split_unsplit (List.cons_ne_nil _ _) plain
  have absolute : (Path.mk (unsplit (head :: piece :: more))).isAbsolute = p.isAbsolute := by
    rw [Bool.eq_iff_iff, isAbsolute_iff, isAbsolute_iff, whole, shape]
    cases tail with
    | nil => cases kept
    | cons second others => simp
  have dotted : leadingDot (head :: piece :: more) = leadingDot (split p.bytes) := by
    rw [shape]
    exact leadingDot_cons head _ _
  have again : ((Path.mk (unsplit (head :: piece :: more))).isAbsolute ||
      leadingDot (split (Path.mk (unsplit (head :: piece :: more))).bytes)) = true := by
    rwa [whole, absolute, dotted]
  rw [shape, List.head?_cons, Option.getD_some, components_of_starts again, components_of_starts starts, absolute,
    whole, shape, List.tail_cons, List.tail_cons, ← filterMap_trimEnd tail, kept]

theorem components_below_nothing (bare : root.components = []) (left : p.relativeTo? root = some rest) :
    rest.components = p.components := by
  have inside : p.startsWith root = true := startsWith_iff.mpr (bare ▸ List.nil_prefix)
  simp only [relativeTo?, inside, if_true, bare, List.length_nil] at left
  cases starts : p.isAbsolute || leadingDot (split p.bytes) with
  | true =>
    rw [starts, if_pos rfl] at left
    cases kept : trimEnd (split p.bytes).tail with
    | nil =>
      rw [kept] at left
      have blank := filterMap_trimEnd (split p.bytes).tail
      rw [kept] at blank
      rw [components_of_starts starts, ← blank]
      cases absolute : p.isAbsolute <;> simp only [absolute, if_true, Bool.false_eq_true, if_false] at left ⊢ <;>
        cases left <;> rfl
    | cons piece more =>
      rw [kept] at left
      cases left
      exact components_whole starts kept
  | false =>
    rw [starts] at left
    simp only [Bool.false_eq_true, if_false, Option.some.injEq] at left
    subst left
    by_cases nonempty : p.bytes = []
    · simp [components, isAbsolute, nonempty, split, trimEnd, blank, Component.ofPiece?, Name.ofBytes?, Name.isProper,
        unsplit, leadingDot]
    · obtain ⟨head, tail, shape⟩ := List.exists_cons_of_ne_nil (split_ne_nil p.bytes)
      have full := full_of_plain starts nonempty shape
      rw [components_of_plain starts, shape, trimEnd_cons full, components_unsplit]
      · rw [List.filterMap_cons, List.filterMap_cons, filterMap_trimEnd]
      · intro piece found
        have member : piece ∈ split p.bytes := shape ▸ mem_of_mem_cons_trimEnd found
        exact slash_notMem_split member
      · intro piece more same
        exact (List.cons.inj same).1 ▸ full

theorem components_of_relativeTo? (left : p.relativeTo? root = some rest) :
    p.components = root.components ++ rest.components := by
  cases count : root.components.length with
  | zero =>
    have bare := List.length_eq_zero_iff.mp count
    rw [components_below_nothing bare left, bare, List.nil_append]
  | succ n =>
    unfold relativeTo? at left
    split at left
    · rename_i inside
      have cut := List.prefix_iff_eq_append.mp (startsWith_iff.mp inside)
      rw [count] at cut left
      have whole : rest.components = p.components.drop (n + 1) := by
        cases starts : p.isAbsolute || leadingDot (split p.bytes) with
        | true =>
          simp only [starts, if_true, Option.some.injEq] at left
          rw [← left, components_trimmed fun piece found => List.mem_of_mem_tail (mem_of_mem_dropComponents found),
            filterMap_dropComponents, components_of_starts starts]
          rfl
        | false =>
          simp only [starts, Bool.false_eq_true, if_false, Option.some.injEq] at left
          rw [← left, components_trimmed fun piece found => mem_of_mem_dropComponents found,
            filterMap_dropComponents, components_of_plain starts]
      rw [whole, cut]
    · cases left

theorem isSome_relativeTo? : (p.relativeTo? root).isSome = true ↔ root.components <+: p.components := by
  rw [← startsWith_iff]
  unfold relativeTo?
  split
  · rename_i inside
    refine iff_of_true ?_ inside
    dsimp only
    split
    · split
      · split <;> rfl
      · rfl
    · rfl
  · rename_i outside
    exact iff_of_false (by simp) outside

end DirWatch.Path
