import DirWatch.Path.Basic

namespace DirWatch

namespace Utf8

theorem decode?_encode (text : String) : decode? (encode text) = some text := by
  simp only [decode?, encode, String.fromUTF8?, String.toUTF8_eq_toByteArray, Array.toArray_toList,
    dif_pos text.isValidUTF8]
  rfl

theorem encode_of_decode? {bytes : Bytes} {text : String} (read : decode? bytes = some text) : encode text = bytes := by
  unfold decode? String.fromUTF8? at read
  split at read
  · cases read
    rfl
  · cases read

variable {b : UInt8} {p : Partial} {state : Option Partial}

-- A byte that continues a character is none that stands for one.
def Guarded (state : Option Partial) : Prop := ∀ p ∈ state, 0x80 ≤ p.low

theorem guarded_lead (leads : start b = .lead p) : Guarded (some p) := by
  rintro q ⟨⟩
  unfold start at leads
  split at leads
  · cases leads
  split at leads
  · cases leads
  split at leads
  · cases leads
    exact UInt8.le_refl _
  split at leads
  · cases leads
    show (0x80 : UInt8) ≤ if b = 0xE0 then 0xA0 else 0x80
    split <;> decide
  split at leads
  · cases leads
    show (0x80 : UInt8) ≤ if b = 0xF0 then 0x90 else 0x80
    split <;> decide
  · cases leads

theorem guarded_push : Guarded (some (p.push b)) := by
  rintro q ⟨⟩
  exact UInt8.le_refl _

theorem Guarded.refuses (guarded : Guarded (some p)) (plain : b < 0x80) : p.accepts b = false := by
  have below : b < p.low := UInt8.lt_of_lt_of_le plain (guarded p rfl)
  simp [Partial.accepts, UInt8.not_le.mpr below]

theorem start_plain (plain : b < 0x80) : start b = .whole (Char.ofNat b.toNat) := if_pos plain

theorem guarded_none : Guarded none := nofun

-- By induction on the bytes in front, whatever character was begun before them.
theorem scan_append_plain (guarded : Guarded state) (plain : b < 0x80) (front rest : Bytes) :
    scan state (front ++ b :: rest) = scan state front ++ .char (Char.ofNat b.toNat) :: scan none rest := by
  induction front generalizing state with
  | nil =>
    cases state with
    | none => simp [scan, start_plain plain]
    | some p => simp [scan, guarded.refuses plain, start_plain plain]
  | cons a front ih =>
    cases state with
    | none =>
      cases first : start a with
      | whole c => simp [scan, first, ih guarded_none]
      | lead p => simp [scan, first, ih (guarded_lead first)]
      | wrong => simp [scan, first, ih guarded_none]
    | some p =>
      simp only [List.cons_append, scan]
      split
      · split
        · simp [ih guarded_none]
        · exact ih guarded_push
      · cases first : start a with
        | whole c => simp [ih guarded_none]
        | lead p => simp [ih (guarded_lead first)]
        | wrong => simp [ih guarded_none]

theorem lossy_append_plain (plain : b < 0x80) (front rest : Bytes) :
    lossy (front ++ b :: rest) = lossy front ++ Char.ofNat b.toNat :: lossy rest := by
  simp [lossy, pieces, scan_append_plain guarded_none plain, Piece.shown]

end Utf8

namespace Path

variable {p : Path} {text : String}

theorem text?_ofString (text : String) : (ofString text).text? = some text := Utf8.decode?_encode text

theorem ofString_of_text? (shows : p.text? = some text) : ofString text = p :=
  congrArg Path.mk (Utf8.encode_of_decode? shows)

end Path

end DirWatch
