import DirWatch.Json.Reader
import DirWatch.Json.Writer
import DirWatch.Proofs.Text.Numeral
import Mathlib.Data.List.Basic

namespace DirWatch.Json

variable {n : Nat} {c : Char} {cs rest : List Char}

-- What may follow a value: the end of the text, or of what the value stands in, or another one.
def Ends (rest : List Char) : Prop := ∀ c ∈ rest.head?, c = ',' ∨ c = ']' ∨ c = '\x7d'

@[simp]
theorem ends_nil : Ends [] := nofun

@[simp]
theorem ends_cons : Ends (c :: rest) ↔ c = ',' ∨ c = ']' ∨ c = '\x7d' := by
  simp [Ends]

theorem hexValue?_hexDigit : ∀ n, n < 16 → hexValue? (hexDigit n) = some n := by decide

-- The three ways to write a character in a string: by a letter for it, by its number, or as it is.
inductive Escaped (c : Char) : List Char → Prop
  | short {letter : Char} : letter ≠ 'u' → shortEscape? letter = some c.toNat → Escaped c ['\\', letter]
  | hidden : c.toNat < 0x20 →
      Escaped c ['\\', 'u', '0', '0', hexDigit (c.toNat / 16), hexDigit (c.toNat % 16)]
  | plain : 0x20 ≤ c.toNat → c ≠ '\x22' → c ≠ '\\' → Escaped c [c]

theorem escaped_escape (c : Char) : Escaped c (escape c) := by
  unfold escape
  split
  · rename_i quoted
    simp only [Bool.or_eq_true, decide_eq_true_eq] at quoted
    rcases quoted with rfl | rfl <;> exact .short (by decide) rfl
  rename_i unquoted
  simp only [Bool.or_eq_true, decide_eq_true_eq, not_or] at unquoted
  iterate 5
    split
    · subst c
      exact .short (by decide) rfl
  split
  · rename_i low
    exact .hidden low
  · exact .plain (by omega) unquoted.1 unquoted.2

theorem readUnits?_short {letter : Char} {n : Nat} (apart : letter ≠ 'u') (stands : shortEscape? letter = some n) :
    readUnits? ('\\' :: letter :: rest) = (readUnits? rest).map fun (units, rest) => (n :: units, rest) := by
  rw [readUnits?.eq_def]
  split
  · rename_i same
    cases same
  · rename_i same
    cases same
  · rename_i same
    cases same
    exact absurd rfl apart
  · rename_i same
    cases same
    cases readUnits? rest <;> simp [stands]
  · rename_i other same
    cases same
    exact (other letter rest rfl rfl).elim

theorem hex4?_low {n : Nat} (low : n < 0x20) : hex4? '0' '0' (hexDigit (n / 16)) (hexDigit (n % 16)) = some n := by
  have zero : hexValue? '0' = some 0 := rfl
  have high := hexValue?_hexDigit (n / 16) (by omega)
  have rest := hexValue?_hexDigit (n % 16) (by omega)
  simp [hex4?, zero, high, rest]
  omega

theorem readUnits?_plain (shows : 0x20 ≤ c.toNat) (quote : c ≠ '\x22') (slash : c ≠ '\\') :
    readUnits? (c :: rest) = (readUnits? rest).map fun (units, rest) => (c.toNat :: units, rest) := by
  rw [readUnits?.eq_def]
  split
  · rename_i none
    cases none
  · rename_i same
    cases same
    exact absurd rfl quote
  · rename_i same
    cases same
    exact absurd rfl slash
  · rename_i same
    cases same
    exact absurd rfl slash
  · rename_i same
    cases same
    have plain : ¬(c.toNat < 0x20 ∨ c = '\\') := by
      simp only [slash, or_false]
      omega
    simp only [Bool.or_eq_true, decide_eq_true_eq, beq_iff_eq, plain, if_false]
    cases readUnits? rest <;> rfl

theorem readUnits?_escape (c : Char) (rest : List Char) : readUnits? (escape c ++ rest) =
    (readUnits? rest).map fun (units, rest) => (c.toNat :: units, rest) := by
  have escaped := escaped_escape c
  generalize escape c = text at escaped
  cases escaped with
  | short apart stands => exact readUnits?_short apart stands
  | hidden low =>
    cases read : readUnits? rest <;> simp [readUnits?, hex4?_low low, read]
  | plain shows quote slash => exact readUnits?_plain shows quote slash

theorem readUnits?_text : readUnits? (cs.flatMap escape ++ '\x22' :: rest) = some (cs.map Char.toNat, rest) := by
  induction cs with
  | nil => simp [readUnits?]
  | cons c cs ih =>
    rw [List.flatMap_cons, List.append_assoc, readUnits?_escape, ih]
    rfl

theorem join?_text : join? (cs.map Char.toNat) = some cs := by
  induction cs with
  | nil => rfl
  | cons c cs ih =>
    have valid : c.toNat.isValidChar := c.valid
    have whole : isTrail c.toNat = false ∧ isLead c.toNat = false := by
      unfold isTrail isLead
      rcases valid with low | high
      · simp; omega
      · simp; omega
    rw [List.map_cons, join?.eq_def]
    simp [whole, ih, Char.ofNat_toNat]

theorem readText?_write (s : String) :
    readText? (s.toList.flatMap escape ++ '\x22' :: rest) = some (some s, rest) := by
  simp [readText?, readUnits?_text, join?_text]

theorem head_decimal (zero : (Nat.toDigits 10 n).head? = some '0') : n = 0 := by
  induction n using Nat.strongRecOn with
  | ind n ih =>
    rw [Nat.toDigits_eq_if (by decide)] at zero
    split at zero
    · rename_i one
      have each : ∀ n < 10, [Nat.digitChar n].head? = some '0' → n = 0 := by decide
      exact each n one zero
    · rename_i more
      rw [List.head?_append_of_ne_nil _ Nat.toDigits_ne_nil] at zero
      have := ih (n / 10) (by omega) zero
      omega

theorem readWhole?_decimal (stops : Text.Stops rest) :
    readWhole? (Nat.toDigits 10 n ++ rest) = some (Nat.toDigits 10 n, rest) := by
  have each : ∀ c ∈ Nat.toDigits 10 n, c.isDigit = true := fun _ listed => Text.isDigit_of_mem_decimal listed
  unfold readWhole? digits
  rw [Text.takeWhile_digits each stops, Text.dropWhile_digits each stops]
  split
  · rename_i none
    cases Nat.toDigits_ne_nil (congrArg Prod.fst none)
  · rename_i d ds _ long
    have long : Nat.toDigits 10 n = '0' :: d :: ds := congrArg Prod.fst long
    obtain rfl := head_decimal (n := n) (by rw [long]; rfl)
    cases long
  · rename_i same
    cases same
    rfl

theorem Ends.stops (ends : Ends rest) : Text.Stops rest := by
  intro c first
  rcases ends c first with rfl | rfl | rfl <;> rfl

theorem readNumber?_natural (ends : Ends rest) :
    readNumber? (Nat.toDigits 10 n ++ rest) = some (.natural n, rest) := by
  have plain : ∀ c ∈ Nat.toDigits 10 n, c ≠ '-' := by
    rintro c listed rfl
    cases Text.isDigit_of_mem_decimal listed
  have decimals : readDecimals? rest = some ([], rest) := by
    unfold readDecimals?
    split
    · simp at ends
    · rfl
  have exponent : readExponent? rest = some ([], rest) := by
    unfold readExponent?
    cases rest with
    | nil => rfl
    | cons c rest =>
      rw [ends_cons] at ends
      rcases ends with rfl | rfl | rfl <;> rfl
  unfold readNumber?
  split
  rename_i sign text begins
  have begins : sign = [] ∧ text = Nat.toDigits 10 n ++ rest := by
    split at begins
    · rename_i more signed
      cases digits : Nat.toDigits 10 n with
      | nil => cases Nat.toDigits_ne_nil digits
      | cons d ds =>
        rw [digits] at signed
        cases signed
        exact absurd rfl (plain '-' (by simp [digits]))
    · cases begins
      exact ⟨rfl, rfl⟩
  obtain ⟨rfl, rfl⟩ := begins
  simp [readWhole?_decimal ends.stops, decimals, exponent, Nat.ofDigitChars_ten_toDigits]

end DirWatch.Json
