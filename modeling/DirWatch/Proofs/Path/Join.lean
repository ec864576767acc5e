import DirWatch.Proofs.Path.Names

namespace DirWatch.Path

-- The pieces of a directory's path, without the empty one behind a last slash.
def stem (root : Path) : List Bytes :=
  match root.bytes.getLast? with
  | some 47 => (split root.bytes).dropLast
  | _ => split root.bytes

theorem bytes_of_last {root : Path} {b : UInt8} (last : root.bytes.getLast? = some b) :
    ∃ before, root.bytes = before ++ [b] := by
  obtain ⟨before, whole⟩ := List.getLast?_eq_some_iff.mp last
  exact ⟨before, whole⟩

theorem split_of_slash {before : Bytes} : split (before ++ [47]) = split before ++ [[]] :=
  split_append_slash before []

theorem stem_of_slash {root : Path} {before : Bytes} (whole : root.bytes = before ++ [47]) :
    root.stem = split before := by
  unfold stem
  rw [whole, List.getLast?_concat, split_of_slash]
  exact List.dropLast_concat

theorem stem_of_plain {root : Path} (plain : root.bytes.getLast? ≠ some 47) :
    root.stem = split root.bytes := by
  unfold stem
  split
  · rename_i last
    exact absurd last plain
  · rfl

theorem stem_ne_nil (root : Path) : root.stem ≠ [] := by
  by_cases slash : root.bytes.getLast? = some 47
  · obtain ⟨before, whole⟩ := bytes_of_last slash
    rw [stem_of_slash whole]
    exact split_ne_nil before
  · rw [stem_of_plain slash]
    exact split_ne_nil root.bytes

theorem split_eq_stem (root : Path) :
    split root.bytes = root.stem ∨ split root.bytes = root.stem ++ [[]] := by
  by_cases slash : root.bytes.getLast? = some 47
  · obtain ⟨before, whole⟩ := bytes_of_last slash
    right
    rw [stem_of_slash whole, whole, split_of_slash]
  · exact .inl (stem_of_plain slash).symm

theorem join_of_slash {root p : Path} (slash : root.bytes.getLast? = some 47)
    (relative : p.isAbsolute = false) : root.join p = ⟨root.bytes ++ p.bytes⟩ := by
  unfold join
  rw [relative, slash]
  rfl

theorem join_of_plain {root p : Path} (nonempty : root.bytes ≠ []) (plain : root.bytes.getLast? ≠ some 47)
    (relative : p.isAbsolute = false) : root.join p = ⟨root.bytes ++ 47 :: p.bytes⟩ := by
  have last := List.getLast?_eq_some_getLast nonempty
  unfold join
  rw [relative]
  split
  · contradiction
  · split
    · rename_i none
      exact absurd (last.symm.trans none) (by simp)
    · rename_i slash
      exact absurd slash plain
    · rfl

theorem split_join {root : Path} (nonempty : root.bytes ≠ []) {p : Path} (relative : p.isAbsolute = false) :
    split (root.join p).bytes = root.stem ++ split p.bytes := by
  by_cases slash : root.bytes.getLast? = some 47
  · obtain ⟨before, shape⟩ := bytes_of_last slash
    rw [join_of_slash slash relative, shape, stem_of_slash shape, List.append_assoc]
    exact split_append_slash before p.bytes
  · rw [join_of_plain nonempty slash relative, split_append_slash, stem_of_plain slash]

theorem head?_join {root : Path} (nonempty : root.bytes ≠ []) {p : Path} (relative : p.isAbsolute = false) :
    (root.join p).bytes.head? = root.bytes.head? := by
  obtain ⟨b, rest, shape⟩ := List.exists_cons_of_ne_nil nonempty
  by_cases slash : root.bytes.getLast? = some 47
  · rw [join_of_slash slash relative]
    simp [shape]
  · rw [join_of_plain nonempty slash relative]
    simp [shape]

theorem isAbsolute_join {root : Path} (nonempty : root.bytes ≠ []) {p : Path}
    (relative : p.isAbsolute = false) : (root.join p).isAbsolute = root.isAbsolute := by
  unfold isAbsolute
  rw [head?_join nonempty relative]

theorem leadingDot_append {pieces : List Bytes} (nonempty : pieces ≠ []) (more : List Bytes) :
    leadingDot (pieces ++ more) = leadingDot pieces := by
  obtain ⟨piece, rest, rfl⟩ := List.exists_cons_of_ne_nil nonempty
  simp only [List.cons_append]
  unfold leadingDot
  split <;> split <;> simp_all

theorem leadingDot_stem (root : Path) : leadingDot (split root.bytes) = leadingDot root.stem := by
  rcases split_eq_stem root with same | more
  · rw [same]
  · rw [more, leadingDot_append (stem_ne_nil root)]

theorem filterMap_stem (root : Path) :
    (split root.bytes).filterMap Component.ofPiece? = root.stem.filterMap Component.ofPiece? := by
  rcases split_eq_stem root with same | more
  · rw [same]
  · rw [more, List.filterMap_append]
    exact List.append_nil _

theorem components_join (root : Path) (names : List Name) :
    (root.join (ofNames names)).components = root.components ++ names.map .name := by
  have relative := isAbsolute_ofNames names
  by_cases bare : root.bytes = []
  · have alone : root.join (ofNames names) = ofNames names := by
      simp [join, relative, bare]
    have nothing : root.components = [] := by
      simp [components, isAbsolute, bare, split, leadingDot, Component.ofPiece?, Name.ofBytes?, Name.isProper]
    rw [alone, nothing, components_ofNames, List.nil_append]
  · have below : (split (ofNames names).bytes).filterMap Component.ofPiece? = names.map .name := by
      by_cases none : names = []
      · subst none
        rfl
      · rw [split_ofNames none, filterMap_bytes]
    simp only [components, isAbsolute_join bare relative, split_join bare relative,
      leadingDot_append (stem_ne_nil root), leadingDot_stem, filterMap_stem, List.filterMap_append, below]
    split
    · rfl
    · split <;> rfl

theorem blank_bytes (n : Name) : blank n.bytes = false := by
  simp [blank, Component.ofPiece?_bytes]

theorem trimStart_bytes (names : List Name) : trimStart (names.map Name.bytes) = names.map Name.bytes := by
  cases names with
  | nil => rfl
  | cons n rest => simp [trimStart, blank_bytes]

theorem trimEnd_bytes (names : List Name) : trimEnd (names.map Name.bytes) = names.map Name.bytes := by
  have turned := trimStart_bytes names.reverse
  unfold trimStart at turned
  unfold trimEnd
  rw [← List.map_reverse, turned, List.map_reverse, List.reverse_reverse]

-- Once all components of the front are left out, only blank pieces can stand before the back.
theorem trimStart_dropComponents (front : List Bytes) (names : List Name) :
    trimStart (dropComponents (front.filterMap Component.ofPiece?).length
      (front ++ names.map Name.bytes)) = names.map Name.bytes := by
  induction front with
  | nil => simpa [dropComponents] using trimStart_bytes names
  | cons piece rest ih =>
    cases part : Component.ofPiece? piece with
    | some c =>
      have full : blank piece = false := by simp [blank, part]
      simpa [part, dropComponents, full] using ih
    | none =>
      have empty : blank piece = true := by simp [blank, part]
      simp only [List.filterMap_cons, part, List.cons_append]
      cases count : (rest.filterMap Component.ofPiece?).length with
      | zero =>
        rw [count] at ih
        simpa [dropComponents, trimStart, empty] using ih
      | succ k =>
        rw [count] at ih
        simpa [dropComponents, empty] using ih

-- What makes a path start with a marker of its own is a blank first piece.
theorem filterMap_tail_of_starts {root : Path}
    (starts : (root.isAbsolute || leadingDot root.stem) = true) :
    root.stem.tail.filterMap Component.ofPiece? = root.stem.filterMap Component.ofPiece? := by
  obtain ⟨piece, rest, shape⟩ := List.exists_cons_of_ne_nil (stem_ne_nil root)
  have first : piece = [] ∨ piece = [46] := by
    by_cases dotted : leadingDot root.stem = true
    · rw [shape] at dotted
      unfold leadingDot at dotted
      split at dotted
      · rename_i same
        exact .inr (List.cons.inj same).1
      · cases dotted
    · left
      have absolute : root.isAbsolute = true := by simpa [dotted] using starts
      obtain ⟨after, whole⟩ : ∃ after, root.bytes = 47 :: after := by
        cases bytes : root.bytes with
        | nil => simp [isAbsolute, bytes] at absolute
        | cons b after =>
          have slash : b = 47 := by simpa [isAbsolute, bytes] using absolute
          exact ⟨after, by rw [slash]⟩
      have cut : split root.bytes = [] :: split after := by
        rw [whole]
        exact split_append_slash [] after
      rcases split_eq_stem root with same | more
      · rw [cut, shape] at same
        exact (List.cons.inj same).1.symm
      · rw [cut, shape] at more
        exact (List.cons.inj more).1.symm
  rw [shape, List.tail_cons, List.filterMap_cons]
  rcases first with rfl | rfl <;> rfl

theorem components_length {root : Path} :
    root.components.length = if root.isAbsolute || leadingDot root.stem
      then (root.stem.filterMap Component.ofPiece?).length + 1
      else (root.stem.filterMap Component.ofPiece?).length := by
  simp only [components, leadingDot_stem, filterMap_stem]
  cases root.isAbsolute
  · cases leadingDot root.stem <;> simp
  · simp

theorem slash_notMem_split {bytes piece : Bytes} (found : piece ∈ split bytes) : (47 : UInt8) ∉ piece := by
  induction bytes generalizing piece with
  | nil =>
    have empty : piece = [] := List.mem_singleton.mp found
    simp [empty]
  | cons b rest ih =>
    by_cases slash : b = 47
    · subst slash
      rcases List.mem_cons.mp (show piece ∈ [] :: split rest by simpa [split] using found) with rfl | later
      · simp
      · exact ih later
    · obtain ⟨first, pieces, cut⟩ := List.exists_cons_of_ne_nil (split_ne_nil rest)
      rw [split_cons slash cut] at found
      rw [cut] at ih
      rcases List.mem_cons.mp found with rfl | later
      · intro inside
        rcases List.mem_cons.mp inside with same | inside
        · exact slash same.symm
        · exact ih List.mem_cons_self inside
      · exact ih (List.mem_cons_of_mem _ later)

theorem ofPiece?_eq_none {piece : Bytes} (plain : (47 : UInt8) ∉ piece)
    (none : Component.ofPiece? piece = none) : piece = [] ∨ piece = [46] := by
  by_cases dots : piece = [46, 46]
  · simp [Component.ofPiece?, dots] at none
  · simp only [Component.ofPiece?, dots, if_false, Option.map_eq_none_iff] at none
    have improper : Name.isProper piece ≠ true := by
      intro proper
      simp [Name.ofBytes?, proper] at none
    by_cases empty : piece = []
    · exact .inl empty
    · right
      by_contra dot
      exact improper (by simp [Name.isProper, empty, plain, dot, dots])

theorem components_ne_nil {root : Path} (nonempty : root.bytes ≠ []) : root.components.length ≠ 0 := by
  rw [components_length]
  split
  · simp
  · rename_i starts
    simp only [Bool.or_eq_true, not_or, Bool.not_eq_true] at starts
    obtain ⟨b, rest, bytes⟩ := List.exists_cons_of_ne_nil nonempty
    have head : b ≠ 47 := by
      intro slash
      simp [isAbsolute, bytes, slash] at starts
    obtain ⟨piece, pieces, cut⟩ := List.exists_cons_of_ne_nil (split_ne_nil rest)
    have whole : split root.bytes = (b :: piece) :: pieces := by
      rw [bytes]
      exact split_cons head cut
    have plain : (47 : UInt8) ∉ b :: piece := slash_notMem_split (whole ▸ List.mem_cons_self)
    have full : Component.ofPiece? (b :: piece) ≠ none := by
      intro none
      rcases ofPiece?_eq_none plain none with empty | dot
      · cases empty
      · have dotted := starts.2
        rw [← leadingDot_stem, whole, dot] at dotted
        cases dotted
    obtain ⟨c, part⟩ := Option.ne_none_iff_exists'.mp full
    rw [← filterMap_stem, whole, List.filterMap_cons, part]
    simp

theorem relativeTo?_join {root : Path} (nonempty : root.bytes ≠ []) {names : List Name}
    (below : names ≠ []) : (root.join (ofNames names)).relativeTo? root = some (ofNames names) := by
  have relative := isAbsolute_ofNames names
  have inside : (root.join (ofNames names)).startsWith root = true := by
    rw [startsWith_iff, components_join]
    exact List.prefix_append _ _
  simp only [relativeTo?, inside, if_true, isAbsolute_join nonempty relative,
    split_join nonempty relative, split_ofNames below, leadingDot_append (stem_ne_nil root)]
  have length := @components_length root
  split
  · rename_i none
    exact absurd none (components_ne_nil nonempty)
  · rename_i n count
    rw [count] at length
    by_cases starts : (root.isAbsolute || leadingDot root.stem) = true
    · simp only [starts, if_true] at length ⊢
      have front := trimStart_dropComponents root.stem.tail names
      rw [filterMap_tail_of_starts starts, ← Nat.succ.inj length] at front
      rw [List.tail_append_of_ne_nil (stem_ne_nil root), front, trimEnd_bytes]
      rfl
    · simp only [starts, if_false, Bool.false_eq_true] at length ⊢
      have front := trimStart_dropComponents root.stem names
      rw [← length] at front
      rw [front, trimEnd_bytes]
      rfl

theorem join_empty_join {root : Path} (nonempty : root.bytes ≠ []) {p : Path}
    (relative : p.isAbsolute = false) : (root.join empty).join p = root.join p := by
  have blank : empty.isAbsolute = false := rfl
  by_cases slash : root.bytes.getLast? = some 47
  · have same : root.join empty = root := by
      rw [join_of_slash slash blank]
      simp [empty]
    rw [same]
  · have slashed := join_of_plain nonempty slash blank
    have ended : (root.join empty).bytes.getLast? = some 47 := by
      rw [slashed]
      simp [empty]
    rw [join_of_slash ended relative, slashed, join_of_plain nonempty slash relative]
    simp [empty]

theorem bytes_ofNames_concat {above : List Name} (below : above ≠ []) (n : Name) :
    (ofNames (above ++ [n])).bytes = (ofNames above).bytes ++ 47 :: n.bytes := by
  unfold ofNames
  rw [List.map_append]
  exact unsplit_append_singleton (by simpa using below) n.bytes

theorem getLast?_ofNames {names : List Name} (below : names ≠ []) :
    ∃ b, b ≠ 47 ∧ ∀ front : Bytes, (front ++ (ofNames names).bytes).getLast? = some b := by
  obtain ⟨above, n, rfl⟩ := (List.eq_nil_or_concat' names).resolve_left below
  have last := List.getLast?_eq_some_getLast n.bytes_ne_nil
  refine ⟨n.bytes.getLast n.bytes_ne_nil, ?_, fun front => ?_⟩
  · intro slash
    exact n.slash_notMem (slash ▸ List.getLast_mem n.bytes_ne_nil)
  · cases above with
    | nil => simp [ofNames, unsplit, last, List.getLast?_append]
    | cons m others =>
      rw [bytes_ofNames_concat (List.cons_ne_nil m others)]
      simp [List.getLast?_append, List.getLast?_cons, last]

theorem join_join {root : Path} (nonempty : root.bytes ≠ []) (names : List Name) (n : Name) :
    (root.join (ofNames names)).join (ofName n) = root.join (ofNames (names ++ [n])) := by
  have relative : (ofName n).isAbsolute = false := isAbsolute_ofNames [n]
  cases names with
  | nil => exact join_empty_join nonempty relative
  | cons m others =>
    have longer := bytes_ofNames_concat (List.cons_ne_nil m others) n
    obtain ⟨b, plain, last⟩ := getLast?_ofNames (List.cons_ne_nil m others)
    have joined : ∃ front, root.join (ofNames (m :: others)) = ⟨front ++ (ofNames (m :: others)).bytes⟩ ∧
        root.join (ofNames ((m :: others) ++ [n])) = ⟨front ++ (ofNames ((m :: others) ++ [n])).bytes⟩ := by
      by_cases slash : root.bytes.getLast? = some 47
      · exact ⟨root.bytes, join_of_slash slash (isAbsolute_ofNames _),
          join_of_slash slash (isAbsolute_ofNames _)⟩
      · refine ⟨root.bytes ++ [47], ?_, ?_⟩
        · rw [join_of_plain nonempty slash (isAbsolute_ofNames _)]
          simp
        · rw [join_of_plain nonempty slash (isAbsolute_ofNames _)]
          simp
    obtain ⟨front, upper, lower⟩ := joined
    rw [upper, lower, longer, join_of_plain ?_ ?_ relative]
    · simp [ofName]
    · intro none
      have ended := last front
      rw [show front ++ (ofNames (m :: others)).bytes = [] from none] at ended
      cases ended
    · rw [last front]
      simpa using plain

end DirWatch.Path
