import DirWatch.Proofs.Text.Numeral
import DirWatch.Proofs.Time.Calendar
import DirWatch.Time.Instant

namespace DirWatch.Instant

open Text

variable {n width : Nat} {c mark : Char} {rest : List Char}

theorem skipBlank_cons (shows : Text.isBlank c = false) : skipBlank (c :: rest) = c :: rest := by
  simp [skipBlank, shows]

theorem not_isBlank_of_isDigit (digit : c.isDigit = true) : Text.isBlank c = false := by
  simp only [Char.isDigit, Bool.and_eq_true, decide_eq_true_eq, ge_iff_le, UInt32.le_iff_toNat_le] at digit
  simp only [Text.isBlank, Char.toNat]
  simp at digit ⊢
  omega

theorem skipBlank_padded : skipBlank (padded width n ++ rest) = padded width n ++ rest := by
  obtain ⟨d, ds, digits, digit⟩ := padded_cons width n
  rw [digits]
  exact skipBlank_cons (not_isBlank_of_isDigit digit)

theorem readField?_padded (fits : n < 100) : readField? (padded 2 n ++ rest) = some (n, rest) := by
  rw [readField?, skipBlank_padded, number?_padded (by simpa using fits) (by decide)]

theorem readMark?_mark (shows : Text.isBlank mark = false) : readMark? mark (mark :: rest) = some rest := by
  simp [readMark?, skipBlank_cons shows]

theorem readYear?_write (year : Int) : readYear? (writeYear year ++ '-' :: rest) = some (year, '-' :: rest) := by
  have stops : Stops ('-' :: rest) := by simp
  unfold writeYear
  split
  · rename_i usual
    simp only [Bool.and_eq_true, decide_eq_true_eq] at usual
    have read : number? 4 (padded 4 year.toNat ++ '-' :: rest) = some (year.toNat, '-' :: rest) :=
      number?_padded (by omega) (by decide) _
    obtain ⟨d, ds, digits, digit⟩ := padded_cons 4 year.toNat
    rw [readYear?, skipBlank_padded]
    rw [digits] at read ⊢
    split
    · rename_i same
      cases same
      cases digit
    · rename_i same
      cases same
      cases digit
    · rw [read]
      simp
      omega
  · rename_i signed
    simp only [Bool.and_eq_true, decide_eq_true_eq, not_and] at signed
    have read : anyNumber? (padded 4 year.natAbs ++ '-' :: rest) = some (year.natAbs, '-' :: rest) :=
      anyNumber?_padded stops
    by_cases negative : year < 0
    · have back : -(year.natAbs : Int) = year := by omega
      simp only [Int.natCast_natAbs] at back
      simp [readYear?, negative, skipBlank_cons, Text.isBlank, read, back]
    · have back : (year.natAbs : Int) = year := by omega
      simp only [Int.natCast_natAbs] at back
      simp [readYear?, negative, skipBlank_cons, Text.isBlank, read, back]

theorem takeDigits_padded (fits : n < 10 ^ width) (wide : 0 < width) (short : width ≤ 9) :
    takeDigits 9 (padded width n ++ ['Z']) = (padded width n, ['Z']) :=
  takeDigits_append (fun _ => isDigit_of_mem_padded) (by rw [length_padded fits wide]; exact short) (.inr (by simp))

theorem readFraction?_padded (fits : n < 10 ^ width) (wide : 0 < width) (short : width ≤ 9) :
    readFraction? ('.' :: (padded width n ++ ['Z'])) = some (n * Nat.pow 10 (9 - width), ['Z']) := by
  obtain ⟨d, ds, digits, _⟩ := padded_cons width n
  rw [readFraction?, takeDigits_padded fits wide short, digits]
  simp only [← digits, value_padded, length_padded fits wide]
  rfl

theorem readFraction?_write (below : n < 1000000000) :
    readFraction? (writeFraction n ++ ['Z']) = some (n, ['Z']) := by
  unfold writeFraction
  split
  · subst n
    rfl
  split
  · rename_i whole
    rw [List.cons_append, readFraction?_padded (by omega) (by decide) (by decide)]
    simp
    omega
  split
  · rename_i whole
    rw [List.cons_append, readFraction?_padded (by omega) (by decide) (by decide)]
    simp
    omega
  · rw [List.cons_append, readFraction?_padded (by omega) (by decide) (by decide)]
    simp

-- What a clock shows that can be written in the fields of a text.
structure Clock.Fits (c : Clock) : Prop where
  month : c.date.month < 100
  day : c.date.day < 100
  hour : c.hour < 100
  minute : c.minute < 100
  second : c.second < 100
  nanos : c.nanos < 1000000000

theorem bind_of_eq {α β : Type} {x : Option α} {a : α} (f : α → Option β) (here : x = some a) : (x >>= f) = f a := by
  simp [here]

theorem readChars?_write {c : Clock} (fits : c.Fits) : readChars? c.write = ofClock? c 0 := by
  obtain ⟨month, day, hour, minute, second, nanos⟩ := fits
  have dash : Text.isBlank '-' = false := rfl
  have colon : Text.isBlank ':' = false := rfl
  have text : c.write = writeYear c.date.year ++ '-' :: (padded 2 c.date.month ++ '-' :: (padded 2 c.date.day ++
      'T' :: (padded 2 c.hour ++ ':' :: (padded 2 c.minute ++ ':' :: (padded 2 c.second ++
        (writeFraction c.nanos ++ ['Z'])))))) := by
    simp [Clock.write]
  unfold readChars?
  rw [text]
  -- Date, time and zone, one part of the text after the other.
  refine (bind_of_eq _ (readYear?_write _)).trans ?_
  refine (bind_of_eq _ (readMark?_mark dash)).trans ?_
  refine (bind_of_eq _ (readField?_padded month)).trans ?_
  refine (bind_of_eq _ (readMark?_mark dash)).trans ?_
  refine (bind_of_eq _ (readField?_padded day)).trans ?_
  refine (bind_of_eq _ rfl).trans ?_
  refine (bind_of_eq _ (readField?_padded hour)).trans ?_
  refine (bind_of_eq _ (readMark?_mark colon)).trans ?_
  refine (bind_of_eq _ (readField?_padded minute)).trans ?_
  refine (bind_of_eq _ (readMark?_mark colon)).trans ?_
  refine (bind_of_eq _ (readField?_padded second)).trans ?_
  exact bind_of_eq _ (readFraction?_write nanos)

theorem nanos_cases (t : Instant) : inSpan t.seconds = true ∧
    (t.nanos < 1000000000 ∨ 1000000000 ≤ t.nanos ∧ t.nanos < 2000000000 ∧ t.seconds % 60 = 59) := by
  have valid := t.valid
  simp only [isValid, Bool.and_eq_true, Bool.or_eq_true, decide_eq_true_eq, beq_iff_eq] at valid
  exact ⟨valid.1, by omega⟩

theorem fits_clock (t : Instant) : t.clock.Fits := by
  have valid := Calendar.Date.isValid_ofDays (t.seconds / 86400)
  have most := Calendar.daysIn_le (Calendar.Date.ofDays (t.seconds / 86400)).year
    (Calendar.Date.ofDays (t.seconds / 86400)).month
  simp only [Calendar.Date.isValid, Bool.and_eq_true, decide_eq_true_eq] at valid
  obtain ⟨_, nanos⟩ := t.nanos_cases
  constructor <;> simp only [clock]
  case nanos => split <;> omega
  case second => split <;> omega
  all_goals omega

theorem second_clock (t : Instant) : (t.clock.second = 60 ↔ 1000000000 ≤ t.nanos) ∧
    (if t.clock.second = 60 then 59 else t.clock.second) = (t.seconds % 86400).toNat % 60 ∧
    (if t.clock.second = 60 then t.clock.nanos + 1000000000 else t.clock.nanos) = t.nanos := by
  obtain ⟨_, usual | ⟨leap, below, last⟩⟩ := t.nanos_cases
  · have usual : ¬1000000000 ≤ t.nanos := by omega
    have short : (t.seconds % 86400).toNat % 60 ≠ 60 := by omega
    simp [clock, usual, short]
  · have full : (t.seconds % 86400).toNat % 60 = 59 := by omega
    simp [clock, leap, full]

theorem ofClock?_clock (t : Instant) : ofClock? t.clock 0 = some t := by
  obtain ⟨sixty, second, nanos⟩ := t.second_clock
  have inSpan := t.nanos_cases.1
  have shown : t.clock.date.toDays * 86400 + ((t.clock.hour * 3600 + t.clock.minute * 60 +
      (if t.clock.second = 60 then 59 else t.clock.second) : Nat) : Int) = t.seconds := by
    have days : t.clock.date.toDays = t.seconds / 86400 := Calendar.Date.toDays_ofDays _
    rw [second, days]
    simp only [clock]
    omega
  have right : (t.clock.date.isValid && t.clock.hour < 24 && t.clock.minute < 60 && t.clock.second ≤ 60 &&
      (0 : Int).natAbs < 86400) = true := by
    have valid : t.clock.date.isValid = true := Calendar.Date.isValid_ofDays _
    have hours : t.clock.hour < 24 := by
      simp only [clock]
      omega
    have minutes : t.clock.minute < 60 := by
      simp only [clock]
      omega
    have seconds : t.clock.second ≤ 60 := by
      simp only [clock]
      split <;> omega
    simp [valid, hours, minutes, seconds]
  unfold ofClock?
  rw [if_pos right]
  simp only [shown, nanos, inSpan, if_true, Int.sub_zero, ofSeconds?, t.valid, dif_pos]

theorem read?_write (t : Instant) : read? t.write = some t := by
  simp [read?, write, readChars?_write t.fits_clock, ofClock?_clock]

end DirWatch.Instant
