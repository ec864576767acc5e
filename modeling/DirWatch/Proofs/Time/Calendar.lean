import DirWatch.Time.Calendar
import Mathlib.Tactic.IntervalCases

namespace DirWatch.Calendar

variable {day : Nat} {days : Int}

-- Where a day of the cycle stands: the centuries, the spans of four years and the years gone by, and the day of its
-- year. A year has one day more if it ends with the last day of a leap February.
structure Place (day : Nat) where
  century : Nat
  span : Nat
  year : Nat
  dayOfYear : Nat
  century_le : century ≤ 3
  span_le : span ≤ 24
  year_le : year ≤ 3
  within : dayOfYear < 365 ∨ dayOfYear = 365 ∧ year = 3 ∧ (span < 24 ∨ century = 3)
  adds : day = 36524 * century + 1461 * span + 365 * year + dayOfYear

def place (day : Nat) (inCycle : day < 146097) : Place day :=
  let century := min (day / 36524) 3
  let ofCentury := day - 36524 * century
  let ofSpan := ofCentury % 1461
  let year := min (ofSpan / 365) 3
  { century, span := ofCentury / 1461, year, dayOfYear := ofSpan - 365 * year
    century_le := by omega
    span_le := by omega
    year_le := by omega
    within := by omega
    adds := by omega }

theorem Place.centuries (p : Place day) : day / 36524 = p.century + day / 146096 := by
  obtain ⟨century, span, year, dayOfYear, _, _, _, within, adds⟩ := p
  simp only
  by_cases last : day < 36524 * (century + 1)
  · have here : day / 36524 = century := by omega
    have first : day / 146096 = 0 := by omega
    omega
  · -- Of all centuries only the last one ends with a leap day.
    obtain rfl : day = 146096 := by omega
    omega

-- Spans of 1460 days are a day too short, which shows from the last year of a span on.
theorem Place.shortSpans (p : Place day) : day / 1460 = 25 * p.century + p.span ∨
    day / 1460 = 25 * p.century + p.span + 1 ∧ p.year = 3 ∧ 1 ≤ p.dayOfYear := by
  obtain ⟨century, span, year, dayOfYear, _, _, _, within, adds⟩ := p
  simp only
  omega

theorem Place.yearOfDay_eq (p : Place day) : yearOfDay day = 100 * p.century + 4 * p.span + p.year := by
  have centuries := p.centuries
  have shortSpans := p.shortSpans
  have within := p.within
  have adds := p.adds
  have last : day / 146096 ≤ day := Nat.div_le_self day 146096
  have counted : day - day / 1460 + day / 36524 - day / 146096 = day - day / 1460 + p.century := by omega
  rw [yearOfDay, counted]
  omega

theorem Place.daysBeforeYear_eq (p : Place day) :
    daysBeforeYear (yearOfDay day) = 36524 * p.century + 1461 * p.span + 365 * p.year := by
  have spans := p.span_le
  have years := p.year_le
  rw [p.yearOfDay_eq, daysBeforeYear]
  omega

-- The year of a day of the cycle begins no more than 365 days before it, and so early only if it is to end with the
-- last day of a leap February.
theorem dayOfYear_le (inCycle : day < 146097) : yearOfDay day < 400 ∧ daysBeforeYear (yearOfDay day) ≤ day ∧
    (day < daysBeforeYear (yearOfDay day) + 365 ∨
      day = daysBeforeYear (yearOfDay day) + 365 ∧ isLeap (yearOfDay day + 1 : Nat) = true) := by
  have p := place day inCycle
  have year := p.yearOfDay_eq
  have before := p.daysBeforeYear_eq
  obtain ⟨century, span, ofSpan, dayOfYear, century_le, span_le, year_le, within, adds⟩ := p
  simp only at year before
  refine ⟨by omega, by omega, ?_⟩
  rcases within with usual | ⟨long, rfl, leap⟩
  · exact .inl (by omega)
  · refine .inr ⟨by omega, ?_⟩
    simp only [isLeap, year, Bool.and_eq_true, Bool.or_eq_true, beq_iff_eq, bne_iff_ne]
    omega

theorem daysIn_le (year : Int) (month : Nat) : daysIn year month ≤ 31 := by
  unfold daysIn
  split <;> try split
  all_goals decide

-- The date by the year that runs from March and the days gone by in it.
def Date.ofMarch (year : Int) (dayOfYear : Nat) : Date :=
  let month := (5 * dayOfYear + 2) / 153
  ⟨if month < 10 then year else year + 1, if month < 10 then month + 3 else month - 9, dayOfYear - daysBefore month + 1⟩

theorem month_bounds {dayOfYear : Nat} (inYear : dayOfYear ≤ 365) : (5 * dayOfYear + 2) / 153 ≤ 11 ∧
    daysBefore ((5 * dayOfYear + 2) / 153) ≤ dayOfYear := by
  unfold daysBefore
  omega

theorem Date.toDays_ofMarch {year : Int} {dayOfYear : Nat} (inYear : dayOfYear ≤ 365) :
    (Date.ofMarch year dayOfYear).toDays =
      year / 400 * 146097 + (daysBeforeYear (year % 400).toNat + dayOfYear : Nat) - epochShift := by
  obtain ⟨months, begins⟩ := month_bounds inYear
  unfold ofMarch toDays
  generalize (5 * dayOfYear + 2) / 153 = month at months begins
  by_cases early : month < 10
  · have later : ¬month + 3 ≤ 2 := by omega
    have sum : dayOfYear - daysBefore month + daysBefore month = dayOfYear := Nat.sub_add_cancel begins
    simp [early, later, Nat.add_assoc, Nat.add_comm (daysBefore month), sum]
  · have later : month - 9 ≤ 2 := by omega
    have same : month - 9 + 9 = month := by omega
    have sum : dayOfYear - daysBefore month + daysBefore month = dayOfYear := Nat.sub_add_cancel begins
    simp [early, later, same, Nat.add_assoc, Nat.add_comm (daysBefore month), sum]

theorem Date.isValid_ofMarch {year : Int} {dayOfYear : Nat}
    (inYear : dayOfYear < 365 ∨ dayOfYear = 365 ∧ isLeap (year + 1) = true) :
    (Date.ofMarch year dayOfYear).isValid = true := by
  have spans : ∀ month, (5 * dayOfYear + 2) / 153 = month →
      153 * month ≤ 5 * dayOfYear + 2 ∧ 5 * dayOfYear + 2 < 153 * (month + 1) := by omega
  unfold ofMarch isValid
  generalize (5 * dayOfYear + 2) / 153 = month at spans
  obtain ⟨begins, ends⟩ := spans month rfl
  have months : month ≤ 11 := by omega
  interval_cases month
  case «11» =>
    cases leap : isLeap (year + 1) <;> simp [daysBefore, daysIn, leap] at inYear ⊢ <;> omega
  all_goals
    simp [daysBefore, daysIn]
    omega

theorem Date.ofDays_eq (days : Int) : ∃ year dayOfYear, Date.ofDays days = Date.ofMarch year dayOfYear ∧
    (dayOfYear < 365 ∨ dayOfYear = 365 ∧ isLeap (year + 1) = true) ∧
    year / 400 * 146097 + (daysBeforeYear (year % 400).toNat + dayOfYear : Nat) - epochShift = days := by
  let shifted := days + epochShift
  have inCycle : (shifted % 146097).toNat < 146097 := by omega
  obtain ⟨short, begins, length⟩ := dayOfYear_le inCycle
  refine ⟨shifted / 146097 * 400 + yearOfDay (shifted % 146097).toNat,
    (shifted % 146097).toNat - daysBeforeYear (yearOfDay (shifted % 146097).toNat), rfl, ?_, ?_⟩
  · rcases length with usual | ⟨long, leap⟩
    · exact .inl (by omega)
    · refine .inr ⟨by omega, ?_⟩
      simp only [isLeap, Bool.and_eq_true, Bool.or_eq_true, beq_iff_eq, bne_iff_ne] at leap ⊢
      omega
  · have cycle : (shifted / 146097 * 400 + yearOfDay (shifted % 146097).toNat) / 400 = shifted / 146097 := by omega
    have inIt : ((shifted / 146097 * 400 + yearOfDay (shifted % 146097).toNat) % 400).toNat =
        yearOfDay (shifted % 146097).toNat := by omega
    rw [cycle, inIt, Nat.add_sub_of_le begins]
    omega

theorem Date.toDays_ofDays (days : Int) : (Date.ofDays days).toDays = days := by
  obtain ⟨year, dayOfYear, same, inYear, sum⟩ := Date.ofDays_eq days
  rw [same, toDays_ofMarch (by omega), sum]

theorem Date.isValid_ofDays (days : Int) : (Date.ofDays days).isValid = true := by
  obtain ⟨year, dayOfYear, same, inYear, _⟩ := Date.ofDays_eq days
  rw [same]
  exact isValid_ofMarch inYear

end DirWatch.Calendar
