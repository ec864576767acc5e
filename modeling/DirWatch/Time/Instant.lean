import DirWatch.Text.Blank
import DirWatch.Text.Numeral
import DirWatch.Time.Calendar

namespace DirWatch

namespace Instant

-- From -262143-01-01T00:00:00 to +262142-12-31T23:59:59, the span of the calendar in use.
def firstSecond : Int := (⟨-262143, 1, 1⟩ : Calendar.Date).toDays * 86400

def lastSecond : Int := (⟨262142, 12, 31⟩ : Calendar.Date).toDays * 86400 + 86399

def inSpan (seconds : Int) : Bool := firstSecond ≤ seconds && seconds ≤ lastSecond

-- A leap second is the last second of its minute, with a second more in the nanoseconds.
def isValid (seconds : Int) (nanos : Nat) : Bool :=
  inSpan seconds && (nanos < 1000000000 || (nanos < 2000000000 && seconds % 60 == 59))

end Instant

-- Seconds since 1970-01-01T00:00:00Z and nanoseconds on top.
structure Instant where
  seconds : Int
  nanos : Nat
  valid : Instant.isValid seconds nanos = true
deriving DecidableEq, Repr

namespace Instant

def ofSeconds? (seconds : Int) (nanos : Nat) : Option Instant :=
  if h : isValid seconds nanos = true then some ⟨seconds, nanos, h⟩ else none

structure Clock where
  date : Calendar.Date
  hour : Nat
  minute : Nat
  second : Nat
  nanos : Nat
deriving DecidableEq, Repr

def clock (t : Instant) : Clock :=
  let ofDay := (t.seconds % 86400).toNat
  let leap := 1000000000 ≤ t.nanos
  ⟨.ofDays (t.seconds / 86400), ofDay / 3600, ofDay / 60 % 60,
    ofDay % 60 + (if leap then 1 else 0), if leap then t.nanos - 1000000000 else t.nanos⟩

-- Four digits from 0 to 9999, and a sign before at least four digits otherwise.
def writeYear (year : Int) : List Char :=
  if 0 ≤ year && year ≤ 9999 then Text.padded 4 year.toNat
  else (if year < 0 then '-' else '+') :: Text.padded 4 year.natAbs

def writeFraction (nanos : Nat) : List Char :=
  if nanos = 0 then []
  else if nanos % 1000000 = 0 then '.' :: Text.padded 3 (nanos / 1000000)
  else if nanos % 1000 = 0 then '.' :: Text.padded 6 (nanos / 1000)
  else '.' :: Text.padded 9 nanos

def Clock.write (c : Clock) : List Char :=
  writeYear c.date.year ++ '-' :: Text.padded 2 c.date.month ++ '-' :: Text.padded 2 c.date.day ++
    'T' :: Text.padded 2 c.hour ++ ':' :: Text.padded 2 c.minute ++ ':' :: Text.padded 2 c.second ++
    writeFraction c.nanos ++ ['Z']

def write (t : Instant) : String := String.ofList t.clock.write

-- Reading. Blanks may stand before every number and every separator; years of more than four digits
-- need a sign; months, days, hours, minutes and seconds have one digit or two.

def readYear? (text : List Char) : Option (Int × List Char) :=
  match Text.skipBlank text with
  | '-' :: rest => (Text.anyNumber? rest).map fun (n, rest) => (-(n : Int), rest)
  | '+' :: rest => (Text.anyNumber? rest).map fun (n, rest) => ((n : Int), rest)
  | rest => (Text.number? 4 rest).map fun (n, rest) => ((n : Int), rest)

def readField? (text : List Char) : Option (Nat × List Char) :=
  Text.number? 2 (Text.skipBlank text)

def readMark? (mark : Char) (text : List Char) : Option (List Char) :=
  match Text.skipBlank text with
  | c :: rest => if c = mark then some rest else none
  | [] => none

def readFraction? : List Char → Option (Nat × List Char)
  | '.' :: text =>
    match Text.takeDigits 9 text with
    | ([], _) => none
    | (digits, rest) => some (Text.value digits * Nat.pow 10 (9 - digits.length), rest.dropWhile Char.isDigit)
  | text => some (0, text)

def readOffset? (text : List Char) : Option (Nat × List Char) :=
  match text with
  | a :: b :: rest =>
    if a.isDigit && b.isDigit then
      match rest.dropWhile (fun c => c == ':' || Text.isBlank c) with
      | c :: d :: rest =>
        if c.isDigit && d.isDigit && Text.value [c] < 6 then
          some (Text.value [a, b] * 3600 + Text.value [c, d] * 60, rest)
        else none
      | _ => none
    else none
  | _ => none

-- The offset from UTC in seconds: `Z`, `UTC` in any case, or a sign with hours and minutes.
def readZone? (text : List Char) : Option (Int × List Char) :=
  match text with
  | 'Z' :: rest | 'z' :: rest => some (0, rest)
  | '+' :: rest => (readOffset? rest).map fun (n, rest) => ((n : Int), rest)
  | '-' :: rest | '\u2212' :: rest => (readOffset? rest).map fun (n, rest) => (-(n : Int), rest)
  | u :: t :: c :: rest =>
    if (u == 'u' || u == 'U') && (t == 't' || t == 'T') && (c == 'c' || c == 'C') then some (0, rest)
    else none
  | _ => none

-- The instant at which a clock that is `offset` seconds ahead of UTC shows this. Second 60 is the
-- leap second of its minute.
def ofClock? (c : Clock) (offset : Int) : Option Instant :=
  if c.date.isValid && c.hour < 24 && c.minute < 60 && c.second ≤ 60 && offset.natAbs < 86400 then
    let second := if c.second = 60 then 59 else c.second
    let nanos := if c.second = 60 then c.nanos + 1000000000 else c.nanos
    let shown := c.date.toDays * 86400 + (c.hour * 3600 + c.minute * 60 + second : Nat)
    if inSpan shown then ofSeconds? (shown - offset) nanos else none
  else none

def readChars? (text : List Char) : Option Instant := do
  let (year, text) ← readYear? text
  let text ← readMark? '-' text
  let (month, text) ← readField? text
  let text ← readMark? '-' text
  let (day, text) ← readField? text
  let text ← match text with
    | 'T' :: rest | 't' :: rest | ' ' :: rest => some rest
    | _ => none
  let (hour, text) ← readField? text
  let text ← readMark? ':' text
  let (minute, text) ← readField? text
  let text ← readMark? ':' text
  let (second, text) ← readField? text
  let (nanos, text) ← readFraction? text
  let (offset, text) ← readZone? (Text.skipBlank text)
  if (Text.skipBlank text).isEmpty then ofClock? ⟨⟨year, month, day⟩, hour, minute, second, nanos⟩ offset
  else none

def read? (text : String) : Option Instant := readChars? text.toList

end Instant

end DirWatch
