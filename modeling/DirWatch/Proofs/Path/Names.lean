import DirWatch.Path.Basic
import Mathlib.Data.List.Infix

namespace DirWatch

namespace Name

theorem bytes_ne_nil (n : Name) : n.bytes ≠ [] := by
  have proper := n.proper
  intro empty
  simp [isProper, empty] at proper

theorem slash_notMem (n : Name) : (47 : UInt8) ∉ n.bytes := by
  have proper := n.proper
  intro found
  simp [isProper, found] at proper

theorem bytes_ne_dot (n : Name) : n.bytes ≠ [46] := by
  have proper := n.proper
  intro dot
  simp [isProper, dot] at proper

theorem bytes_ne_dots (n : Name) : n.bytes ≠ [46, 46] := by
  have proper := n.proper
  intro dots
  simp [isProper, dots] at proper

theorem ofBytes?_bytes (n : Name) : ofBytes? n.bytes = some n := by
  simp [ofBytes?, n.proper]

end Name

theorem Component.ofPiece?_bytes (n : Name) : ofPiece? n.bytes = some (.name n) := by
  simp [ofPiece?, n.bytes_ne_dots, n.ofBytes?_bytes]

theorem Component.name_injective : Function.Injective Component.name :=
  fun _ _ same => Component.name.inj same

namespace Path

theorem split_ne_nil (bytes : Bytes) : split bytes ≠ [] := by
  cases bytes with
  | nil => simp [split]
  | cons b rest =>
    unfold split
    split
    · simp
    · split <;> simp

theorem split_cons {b : UInt8} (plain : b ≠ 47) {rest piece : Bytes} {pieces : List Bytes}
    (cut : split rest = piece :: pieces) : split (b :: rest) = (b :: piece) :: pieces := by
  simp [split, plain, cut]

theorem split_append_slash (before after : Bytes) :
    split (before ++ 47 :: after) = split before ++ split after := by
  induction before with
  | nil => simp [split]
  | cons b rest ih =>
    by_cases slash : b = 47
    · subst slash
      simpa [split] using ih
    · obtain ⟨piece, pieces, cut⟩ := List.exists_cons_of_ne_nil (split_ne_nil rest)
      rw [cut] at ih
      rw [List.cons_append, split_cons slash ih, split_cons slash cut]
      rfl

theorem split_piece {piece : Bytes} (plain : (47 : UInt8) ∉ piece) : split piece = [piece] := by
  induction piece with
  | nil => rfl
  | cons b rest ih =>
    have head : b ≠ 47 := fun slash => plain (by simp [slash])
    exact split_cons head (ih fun found => plain (List.mem_cons_of_mem _ found))

theorem unsplit_cons {pieces : List Bytes} (more : pieces ≠ []) (piece : Bytes) :
    unsplit (piece :: pieces) = piece ++ 47 :: unsplit pieces := by
  cases pieces with
  | nil => exact absurd rfl more
  | cons _ _ => rfl

theorem unsplit_append_singleton {pieces : List Bytes} (more : pieces ≠ []) (last : Bytes) :
    unsplit (pieces ++ [last]) = unsplit pieces ++ 47 :: last := by
  induction pieces with
  | nil => exact absurd rfl more
  | cons piece rest ih =>
    cases rest with
    | nil => rfl
    | cons second others =>
      have longer : second :: others ++ [last] ≠ [] := by simp
      rw [List.cons_append, unsplit_cons longer, ih (by simp), unsplit_cons (List.cons_ne_nil _ _)]
      simp

theorem split_unsplit {pieces : List Bytes} (some : pieces ≠ [])
    (plain : ∀ piece ∈ pieces, (47 : UInt8) ∉ piece) : split (unsplit pieces) = pieces := by
  induction pieces with
  | nil => exact absurd rfl some
  | cons piece rest ih =>
    cases rest with
    | nil => exact split_piece (plain piece List.mem_cons_self)
    | cons second others =>
      rw [unsplit_cons (by simp), split_append_slash,
        split_piece (plain piece List.mem_cons_self), ih (by simp)]
      · rfl
      · exact fun p found => plain p (List.mem_cons_of_mem _ found)

theorem split_ofNames {names : List Name} (some : names ≠ []) :
    split (ofNames names).bytes = names.map Name.bytes := by
  apply split_unsplit
  · simpa using some
  · intro piece found
    obtain ⟨n, _, rfl⟩ := List.mem_map.mp found
    exact n.slash_notMem

theorem filterMap_bytes (names : List Name) :
    (names.map Name.bytes).filterMap Component.ofPiece? = names.map .name := by
  induction names with
  | nil => rfl
  | cons n rest ih => simp [Component.ofPiece?_bytes, ih]

theorem isAbsolute_ofNames (names : List Name) : (ofNames names).isAbsolute = false := by
  cases names with
  | nil => rfl
  | cons n rest =>
    obtain ⟨b, bytes, shape⟩ := List.exists_cons_of_ne_nil n.bytes_ne_nil
    have head : b ≠ 47 := fun slash => n.slash_notMem (by simp [shape, slash])
    have start : (unsplit ((n :: rest).map Name.bytes)).head? = some b := by
      cases rest <;> simp [unsplit, shape]
    unfold isAbsolute ofNames
    rw [start]
    simpa using head

theorem leadingDot_bytes (names : List Name) : leadingDot (names.map Name.bytes) = false := by
  cases names with
  | nil => rfl
  | cons n rest =>
    unfold leadingDot
    split
    · rename_i shape
      exact absurd (List.cons.inj shape).1 n.bytes_ne_dot
    · rfl

@[simp]
theorem components_ofNames (names : List Name) : (ofNames names).components = names.map .name := by
  by_cases none : names = []
  · subst none
    rfl
  · simp only [components, isAbsolute_ofNames, split_ofNames none, leadingDot_bytes,
      filterMap_bytes, Bool.false_eq_true, if_false]

theorem components_ofNames_inj {a b : List Name} :
    (ofNames a).components = (ofNames b).components ↔ a = b := by
  rw [components_ofNames, components_ofNames]
  exact List.map_inj_right fun _ _ same => Component.name.inj same

theorem ofNames_injective : Function.Injective ofNames := by
  intro a b same
  exact components_ofNames_inj.mp (congrArg components same)

theorem bytes_ofNames_eq_nil {names : List Name} : (ofNames names).bytes = [] ↔ names = [] := by
  constructor
  · intro bare
    have empty : ofNames names = ofNames [] := congrArg Path.mk bare
    exact ofNames_injective empty
  · rintro rfl
    rfl

section Taken

variable {p : Path} {parts : List Component} {names : List Name} {c : Component} {pieces : List Bytes}

theorem names_or_up (found : c ∈ pieces.filterMap Component.ofPiece?) : c = .up ∨ ∃ n, c = .name n := by
  obtain ⟨piece, _, part⟩ := List.mem_filterMap.mp found
  unfold Component.ofPiece? at part
  split at part
  · cases part
    exact .inl rfl
  · obtain ⟨n, _, rfl⟩ := Option.map_eq_some_iff.mp part
    exact .inr ⟨n, rfl⟩

theorem names_or_up_of_tail (found : c ∈ p.components.tail) : c = .up ∨ ∃ n, c = .name n := by
  unfold components at found
  dsimp only at found
  split at found
  · exact names_or_up found
  · split at found
    · exact names_or_up found
    · exact names_or_up (List.mem_of_mem_tail found)

theorem namesOf_eq_some : namesOf parts = some names ↔ parts.filter (· ≠ .here) = names.map .name := by
  induction parts generalizing names with
  | nil => simp [namesOf, eq_comm]
  | cons c rest ih =>
    cases c with
    | root => cases names <;> simp [namesOf]
    | up => cases names <;> simp [namesOf]
    | here => simpa [namesOf] using ih
    | name n =>
      cases names with
      | nil => simp [namesOf]
      | cons m others => simp [namesOf, ih, and_comm]

theorem names?_eq_some : p.names? = some names ↔ p.components.filter (· ≠ .here) = names.map .name := namesOf_eq_some

theorem names?_of_markless (markless : .here ∉ p.components) :
    p.names? = some names ↔ p.components = names.map .name := by
  rw [names?_eq_some, List.filter_eq_self.mpr]
  intro c listed
  simpa using fun same : c = .here => markless (same ▸ listed)

theorem names?_eq_of_components (parts : p.components = names.map .name) : p.names? = some names := by
  refine (names?_of_markless fun marked => ?_).mpr parts
  rw [parts] at marked
  obtain ⟨n, _, same⟩ := List.mem_map.mp marked
  cases same

@[simp]
theorem names?_ofNames (names : List Name) : (ofNames names).names? = some names :=
  names?_eq_of_components (components_ofNames names)

theorem exists_names (each : ∀ c ∈ parts, ∃ n, c = .name n) : ∃ names : List Name, parts = names.map .name := by
  induction parts with
  | nil => exact ⟨[], rfl⟩
  | cons c rest ih =>
    obtain ⟨⟨n, rfl⟩, later⟩ := List.forall_mem_cons.mp each
    obtain ⟨names, rfl⟩ := ih later
    exact ⟨n :: names, rfl⟩

theorem isSome_names?_of_markless (markless : .here ∉ p.components) :
    p.names?.isSome = true ↔ ∀ c ∈ p.components, ∃ n, c = .name n := by
  rw [Option.isSome_iff_exists]
  simp only [names?_of_markless markless]
  constructor
  · rintro ⟨names, parts⟩ c listed
    rw [parts] at listed
    obtain ⟨n, _, rfl⟩ := List.mem_map.mp listed
    exact ⟨n, rfl⟩
  · exact exists_names

end Taken

theorem startsWith_iff {p dir : Path} : p.startsWith dir = true ↔ dir.components <+: p.components :=
  List.isPrefixOf_iff_prefix

end Path

end DirWatch
