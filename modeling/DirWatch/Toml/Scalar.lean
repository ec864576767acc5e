import DirWatch.Time.Calendar
import DirWatch.Toml.Basic

namespace DirWatch.Toml

def ungroup? (isDigit : Char → Bool) : List Char → Option (List Char)
  | [] => none
  | [c] => if isDigit c then some [c] else none
  | c :: '_' :: rest => if isDigit c then (ungroup? isDigit rest).map (c :: ·) else none
  | c :: rest => if isDigit c then (ungroup? isDigit rest).map (c :: ·) else none

def digitValue (c : Char) : Nat :=
  if c.isDigit then c.toNat - 48 else if 'a' ≤ c then c.toNat - 87 else c.toNat - 55

def isDigitOf (base : Nat) (c : Char) : Bool :=
  if base = 16 then c.isDigit || ('a' ≤ c && c ≤ 'f') || ('A' ≤ c && c ≤ 'F')
  else c.isDigit && c.toNat - 48 < base

def ofBase? (base : Nat) (text : List Char) : Option Nat :=
  (ungroup? (isDigitOf base) text).map fun ds => ds.foldl (fun n c => n * base + digitValue c) 0

def whole? (text : List Char) : Option Nat :=
  match text with
  | '0' :: _ :: _ => none
  | text => ofBase? 10 text

def signed? (text : List Char) : Bool × List Char :=
  match text with
  | '+' :: rest => (false, rest)
  | '-' :: rest => (true, rest)
  | rest => (false, rest)

def inBounds (n : Int) : Bool := -(Nat.pow 2 127 : Int) ≤ n && n < (Nat.pow 2 128 : Int)

def integer? (text : List Char) : Option Toml :=
  let found : Option Int := match text with
    | '0' :: 'x' :: rest => (ofBase? 16 rest).map Int.ofNat
    | '0' :: 'o' :: rest => (ofBase? 8 rest).map Int.ofNat
    | '0' :: 'b' :: rest => (ofBase? 2 rest).map Int.ofNat
    | text =>
      let (negative, digits) := signed? text
      (whole? digits).map fun n => if negative then -(n : Int) else (n : Int)
  match found with
  | some n => if inBounds n then some (.integer n) else none
  | none => none

-- Whether `n * 10 ^ e` is too large for a double, that is, rounds past 2 ^ 1024.
def overflows (n : Nat) (e : Int) : Bool :=
  if n = 0 then false
  else
    let magnitude := (Nat.toDigits 10 n).length + e
    if magnitude < 300 then false
    else if 400 < magnitude then true
    else n * Nat.pow 10 e.toNat ≥ (Nat.pow 2 1024 - Nat.pow 2 970) * Nat.pow 10 (-e).toNat

def exponent? (text : List Char) : Option Int :=
  let (negative, digits) := signed? text
  (ofBase? 10 digits).map fun n => if negative then -(n : Int) else (n : Int)

def fits? (spelling : List Char) (n : Nat) (e : Int) : Option Toml :=
  if overflows n e then none else some (.float spelling)

def float? (text : List Char) : Option Toml :=
  let unsigned := (signed? text).2
  if unsigned = ['i', 'n', 'f'] || unsigned = ['n', 'a', 'n'] then some (.float text)
  else
    let (mantissa, power) := unsigned.span fun c => c != 'e' && c != 'E'
    let (front, fraction) := mantissa.span (· != '.')
    match whole? front, fraction, power with
    | some n, '.' :: ds, [] => do
      let m ← ofBase? 10 ds
      let length := (ds.filter (· != '_')).length
      fits? text (n * Nat.pow 10 length + m) (-(length : Int))
    | some n, '.' :: ds, _ :: p => do
      let m ← ofBase? 10 ds
      let length := (ds.filter (· != '_')).length
      fits? text (n * Nat.pow 10 length + m) ((← exponent? p) - length)
    | some n, [], _ :: p => do fits? text n (← exponent? p)
    | _, _, _ => none

def fixed? (length : Nat) (text : List Char) : Option (Nat × List Char) :=
  let digits := text.take length
  if digits.length = length && digits.all Char.isDigit then
    some (digits.foldl (fun n c => n * 10 + digitValue c) 0, text.drop length)
  else none

def mark? (c : Char) : List Char → Option (List Char)
  | d :: rest => if d = c then some rest else none
  | [] => none

def date? (text : List Char) : Option (List Char) := do
  let (year, text) ← fixed? 4 text
  let (month, text) ← fixed? 2 (← mark? '-' text)
  let (day, text) ← fixed? 2 (← mark? '-' text)
  if (⟨year, month, day⟩ : Calendar.Date).isValid then some text else none

def clock? (text : List Char) : Option (List Char) := do
  let (hour, text) ← fixed? 2 text
  let (minute, text) ← fixed? 2 (← mark? ':' text)
  if hour < 24 && minute < 60 then
    match text with
    | ':' :: text => do
      let (second, text) ← fixed? 2 text
      if second ≤ 60 then
        match text with
        | '.' :: text =>
          match text.span Char.isDigit with
          | ([], _) => none
          | (_, rest) => some rest
        | text => some text
      else none
    | text => some text
  else none

def zone? (text : List Char) : Option (List Char) :=
  match text with
  | 'Z' :: rest | 'z' :: rest => some rest
  | '+' :: rest | '-' :: rest => do
    let (hour, rest) ← fixed? 2 rest
    let (minute, rest) ← fixed? 2 (← mark? ':' rest)
    if hour < 24 && minute < 60 then some rest else none
  | rest => some rest

def time? (text : List Char) : Option Toml :=
  let ends : Option (List Char) → Option Toml
    | some [] => some (.time text)
    | _ => none
  match date? text with
  | some (sep :: rest) =>
    if sep == 'T' || sep == 't' || sep == ' ' then ends ((clock? rest).bind zone?) else none
  | some [] => some (.time text)
  | none => ends (clock? text)

def isScalarChar (c : Char) : Bool :=
  c.isAlphanum || c == '+' || c == '-' || c == '_' || c == '.' || c == ':'

-- What stands for one value at the front. A date and a time with one space between them are one.
def takeScalar (text : List Char) : List Char × List Char :=
  let (first, rest) := text.span isScalarChar
  match rest with
  | ' ' :: c :: more =>
    if c.isDigit && date? first == some [] then
      let (second, rest) := (c :: more).span isScalarChar
      (first ++ ' ' :: second, rest)
    else (first, rest)
  | rest => (first, rest)

def scalar? (text : List Char) : Option Toml :=
  if text = ['t', 'r', 'u', 'e'] then some (.bool true)
  else if text = ['f', 'a', 'l', 's', 'e'] then some (.bool false)
  else ((integer? text).or (float? text)).or (time? text)

end DirWatch.Toml
