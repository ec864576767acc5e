import DirWatch.Text.Numeral
import Mathlib.Algebra.Group.Nat.Defs

namespace DirWatch.Text

variable {n width limit : Nat} {c : Char} {digits rest : List Char}

def Stops (rest : List Char) : Prop := ∀ c ∈ rest.head?, c.isDigit = false

@[simp]
theorem stops_nil : Stops [] := nofun

@[simp]
theorem stops_cons : Stops (c :: rest) ↔ c.isDigit = false := by
  simp [Stops]

theorem isDigit_of_mem_decimal (listed : c ∈ decimal n) : c.isDigit = true :=
  Nat.isDigit_of_mem_toDigits (by decide) (by decide) listed

theorem isDigit_of_mem_padded (listed : c ∈ padded width n) : c.isDigit = true := by
  rcases List.mem_append.mp listed with zero | digit
  · rw [List.eq_of_mem_replicate zero]
    rfl
  · exact isDigit_of_mem_decimal digit

theorem value_padded : value (padded width n) = n := by
  unfold value padded
  rw [Nat.ofDigitChars_append, Nat.ofDigitChars_replicate_zero, Nat.mul_zero]
  exact value_decimal n

theorem padded_ne_nil : padded width n ≠ [] := by
  simp [padded, decimal, Nat.toDigits_ne_nil]

theorem decimal_cons (n : Nat) : ∃ d ds, decimal n = d :: ds ∧ d.isDigit = true := by
  obtain ⟨d, ds, digits⟩ := List.exists_cons_of_ne_nil (Nat.toDigits_ne_nil (n := n) (b := 10))
  exact ⟨d, ds, digits, isDigit_of_mem_decimal (n := n) (by simp [decimal, digits])⟩

theorem padded_cons (width n : Nat) : ∃ d ds, padded width n = d :: ds ∧ d.isDigit = true := by
  obtain ⟨d, ds, digits⟩ := List.exists_cons_of_ne_nil (padded_ne_nil : padded width n ≠ [])
  exact ⟨d, ds, digits, isDigit_of_mem_padded (by rw [digits]; exact List.mem_cons_self)⟩

theorem length_padded (fits : n < 10 ^ width) (wide : 0 < width) : (padded width n).length = width := by
  have short : (decimal n).length ≤ width := (Nat.length_toDigits_le_iff (by decide) wide).mpr fits
  unfold padded
  rw [List.length_append, List.length_replicate]
  omega

theorem takeWhile_digits (each : ∀ c ∈ digits, c.isDigit = true) (stops : Stops rest) :
    (digits ++ rest).takeWhile Char.isDigit = digits := by
  rw [List.takeWhile_append_of_pos each]
  cases rest with
  | nil => exact List.append_nil digits
  | cons c rest => simp [stops_cons.mp stops]

theorem dropWhile_digits (each : ∀ c ∈ digits, c.isDigit = true) (stops : Stops rest) :
    (digits ++ rest).dropWhile Char.isDigit = rest := by
  rw [List.dropWhile_append_of_pos each]
  cases rest with
  | nil => rfl
  | cons c rest => simp [stops_cons.mp stops]

theorem takeDigits_append (each : ∀ c ∈ digits, c.isDigit = true) (fits : digits.length ≤ limit)
    (ends : digits.length = limit ∨ Stops rest) : takeDigits limit (digits ++ rest) = (digits, rest) := by
  have taken : ((digits ++ rest).take limit).takeWhile Char.isDigit = digits := by
    rw [List.take_append, List.take_of_length_le fits]
    refine takeWhile_digits each ?_
    rcases ends with full | stops
    · simp [full]
    · intro c first
      cases left : limit - digits.length with
      | zero => simp [left] at first
      | succ more =>
        refine stops c ?_
        rw [left] at first
        cases rest with
        | nil => simp at first
        | cons d rest => simpa using first
  simp [takeDigits, taken]

theorem number?_append (each : ∀ c ∈ digits, c.isDigit = true) (present : digits ≠ []) (fits : digits.length ≤ limit)
    (ends : digits.length = limit ∨ Stops rest) : number? limit (digits ++ rest) = some (value digits, rest) := by
  unfold number?
  rw [takeDigits_append each fits ends]
  cases digits with
  | nil => exact absurd rfl present
  | cons => rfl

theorem number?_padded (fits : n < 10 ^ width) (wide : 0 < width) (rest : List Char) :
    number? width (padded width n ++ rest) = some (n, rest) := by
  have full := length_padded fits wide
  rw [number?_append (fun _ => isDigit_of_mem_padded) padded_ne_nil (Nat.le_of_eq full) (.inl full), value_padded]

theorem anyNumber?_padded (stops : Stops rest) : anyNumber? (padded width n ++ rest) = some (n, rest) := by
  unfold anyNumber?
  rw [number?_append (fun _ => isDigit_of_mem_padded) padded_ne_nil (by simp) (.inr stops), value_padded]

end DirWatch.Text
