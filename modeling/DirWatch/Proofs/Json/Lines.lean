import DirWatch.Proofs.Json.Values

namespace DirWatch.Json

variable {v : Json} {items : List Json} {members : List (String × Json)} {c d : Char} {k : String}

def Unbroken (text : List Char) : Prop := ∀ c ∈ text, 0x20 ≤ c.toNat

@[simp]
theorem unbroken_nil : Unbroken [] := by
  simp [Unbroken]

@[simp]
theorem unbroken_cons {text : List Char} : Unbroken (c :: text) ↔ 0x20 ≤ c.toNat ∧ Unbroken text := by
  simp [Unbroken]

@[simp]
theorem unbroken_append {front back : List Char} : Unbroken (front ++ back) ↔ Unbroken front ∧ Unbroken back := by
  simp only [Unbroken, List.mem_append, or_imp, forall_and]

theorem Unbroken.no_break {text : List Char} (unbroken : Unbroken text) : '\n' ∉ text :=
  fun found => absurd (unbroken '\n' found) (by decide)

theorem hexDigit_shows : ∀ n, n < 16 → 0x20 ≤ (hexDigit n).toNat := by decide

theorem shortEscape?_shows {n : Nat} (short : shortEscape? c = some n) : 0x20 ≤ c.toNat := by
  unfold shortEscape? at short
  split at short
  case h_9 => cases short
  all_goals decide

theorem unbroken_escape (c : Char) : Unbroken (escape c) := by
  have escaped := escaped_escape c
  generalize escape c = text at escaped
  cases escaped with
  | short _ stands => simp [shortEscape?_shows stands]
  | hidden low =>
    have high := hexDigit_shows (c.toNat / 16) (by omega)
    have rest := hexDigit_shows (c.toNat % 16) (by omega)
    simp [high, rest]
  | plain shows => simpa using shows

theorem unbroken_text (s : String) : Unbroken (writeText (some s)) := by
  have inside : Unbroken (s.toList.flatMap escape) := by
    intro d found
    obtain ⟨c, _, found⟩ := List.mem_flatMap.mp found
    exact unbroken_escape c d found
  simp [writeText, inside]

theorem unbroken_items (each : ∀ v ∈ items, Unbroken v.write) : Unbroken (writeItems items) := by
  induction items with
  | nil => exact unbroken_nil
  | cons v more ih =>
    obtain ⟨first, later⟩ := List.forall_mem_cons.mp each
    cases more with
    | nil => exact first
    | cons w others => simp [writeItems, first, ih later]

theorem unbroken_members (each : ∀ m ∈ members, Unbroken m.2.write) : Unbroken (writeMembers (named members)) := by
  induction members with
  | nil => exact unbroken_nil
  | cons m more ih =>
    obtain ⟨first, later⟩ := List.forall_mem_cons.mp each
    have own : Unbroken (writeMember (some m.1, m.2)) := by simp [writeMember, unbroken_text, first]
    cases more with
    | nil => exact own
    | cons n others =>
      have rest := ih later
      simp only [named, List.map_cons] at rest
      simp [named, writeMembers, own, rest]

theorem unbroken_write (plain : Plain v) : Unbroken v.write := by
  induction plain with
  | null => simp [write]
  | bool b => cases b <;> simp [write]
  | natural n =>
    intro d found
    have digit : d.isDigit = true := Text.isDigit_of_mem_decimal found
    simp only [Char.isDigit, Bool.and_eq_true, decide_eq_true_eq] at digit
    have above : (48 : UInt32).toNat ≤ d.val.toNat := UInt32.le_iff_toNat_le.mp digit.1
    exact Nat.le_trans (by decide) above
  | text s => exact unbroken_text s
  | array _ each => simp [write, unbroken_items each]
  | record _ each => simp [unbroken_members each]

end DirWatch.Json
