namespace DirWatch.Calendar

structure Date where
  year : Int
  month : Nat
  day : Nat
deriving DecidableEq, Repr

def isLeap (year : Int) : Bool :=
  year % 4 == 0 && (year % 100 != 0 || year % 400 == 0)

def daysIn (year : Int) : Nat → Nat
  | 2 => if isLeap year then 29 else 28
  | 4 | 6 | 9 | 11 => 30
  | _ => 31

def Date.isValid (d : Date) : Bool :=
  1 ≤ d.month && d.month ≤ 12 && 1 ≤ d.day && d.day ≤ daysIn d.year d.month

-- From 0000-03-01 to 1970-01-01. Years run from March here, so that a leap day is the last of its year.
def epochShift : Int := 719468

-- Days before the month that stands `m` months after March.
def daysBefore (m : Nat) : Nat := (153 * m + 2) / 5

def daysBeforeYear (y : Nat) : Nat := y * 365 + y / 4 - y / 100

def yearOfDay (day : Nat) : Nat := (day - day / 1460 + day / 36524 - day / 146096) / 365

def Date.toDays (d : Date) : Int :=
  let year := if d.month ≤ 2 then d.year - 1 else d.year
  let month := if d.month ≤ 2 then d.month + 9 else d.month - 3
  year / 400 * 146097 + (daysBeforeYear (year % 400).toNat + daysBefore month + (d.day - 1) : Nat) - epochShift

def Date.ofDays (days : Int) : Date :=
  let shifted := days + epochShift
  let dayOfCycle := (shifted % 146097).toNat
  let yearOfCycle := yearOfDay dayOfCycle
  let dayOfYear := dayOfCycle - daysBeforeYear yearOfCycle
  let month := (5 * dayOfYear + 2) / 153
  let year := shifted / 146097 * 400 + yearOfCycle
  ⟨if month < 10 then year else year + 1, if month < 10 then month + 3 else month - 9,
    dayOfYear - daysBefore month + 1⟩

end DirWatch.Calendar
