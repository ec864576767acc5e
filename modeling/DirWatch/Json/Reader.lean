import DirWatch.Json.Basic

namespace DirWatch.Json

def isBlank (c : Char) : Bool := c == ' ' || c == '\n' || c == '\t' || c == '\r'

def skip (text : List Char) : List Char := text.dropWhile isBlank

def digits (text : List Char) : List Char × List Char :=
  (text.takeWhile Char.isDigit, text.dropWhile Char.isDigit)

def readWhole? (text : List Char) : Option (List Char × List Char) :=
  match digits text with
  | ([], _) => none
  | ('0' :: _ :: _, _) => none
  | (ds, rest) => some (ds, rest)

def readDecimals? : List Char → Option (List Char × List Char)
  | '.' :: rest =>
    match digits rest with
    | ([], _) => none
    | (ds, rest) => some ('.' :: ds, rest)
  | rest => some ([], rest)

def readExponent? (text : List Char) : Option (List Char × List Char) :=
  let after (start : List Char) (rest : List Char) : Option (List Char × List Char) :=
    match digits rest with
    | ([], _) => none
    | (ds, rest) => some (start ++ ds, rest)
  match text with
  | e :: rest =>
    if e == 'e' || e == 'E' then
      match rest with
      | '+' :: rest => after [e, '+'] rest
      | '-' :: rest => after [e, '-'] rest
      | rest => after [e] rest
    else some ([], text)
  | [] => some ([], [])

def readNumber? (text : List Char) : Option (Json × List Char) := do
  let (sign, rest) := match text with
    | '-' :: rest => (['-'], rest)
    | rest => ([], rest)
  let (whole, rest) ← readWhole? rest
  let (decimals, rest) ← readDecimals? rest
  let (exponent, rest) ← readExponent? rest
  if sign.isEmpty && decimals.isEmpty && exponent.isEmpty then
    some (.natural (Nat.ofDigitChars 10 whole 0), rest)
  else some (.number (sign ++ whole ++ decimals ++ exponent), rest)

def hexValue? (c : Char) : Option Nat :=
  if '0' ≤ c && c ≤ '9' then some (c.toNat - 48)
  else if 'a' ≤ c && c ≤ 'f' then some (c.toNat - 87)
  else if 'A' ≤ c && c ≤ 'F' then some (c.toNat - 55)
  else none

def hex4? (a b c d : Char) : Option Nat := do
  some ((((← hexValue? a) * 16 + (← hexValue? b)) * 16 + (← hexValue? c)) * 16 + (← hexValue? d))

def shortEscape? : Char → Option Nat
  | '\x22' => some 0x22
  | '\\' => some 0x5C
  | '/' => some 0x2F
  | 'b' => some 8
  | 'f' => some 12
  | 'n' => some 10
  | 'r' => some 13
  | 't' => some 9
  | _ => none

-- What a string spells, up to its closing quote: characters by their numbers, and surrogates where
-- escapes name them.
def readUnits? : List Char → Option (List Nat × List Char)
  | [] => none
  | '\x22' :: rest => some ([], rest)
  | '\\' :: 'u' :: a :: b :: c :: d :: rest => do
    let n ← hex4? a b c d
    let (units, rest) ← readUnits? rest
    some (n :: units, rest)
  | '\\' :: c :: rest => do
    let n ← shortEscape? c
    let (units, rest) ← readUnits? rest
    some (n :: units, rest)
  | c :: rest =>
    if c.toNat < 0x20 || c == '\\' then none
    else do
      let (units, rest) ← readUnits? rest
      some (c.toNat :: units, rest)

def isLead (n : Nat) : Bool := 0xD800 ≤ n && n < 0xDC00

def isTrail (n : Nat) : Bool := 0xDC00 ≤ n && n < 0xE000

-- Puts surrogate pairs together. A surrogate without its partner stands for nothing.
def join? : List Nat → Option (List Char)
  | [] => some []
  | n :: rest =>
    if isTrail n then none
    else if isLead n then
      match rest with
      | m :: rest =>
        if isTrail m then
          (join? rest).map (Char.ofNat (0x10000 + (n - 0xD800) * 0x400 + (m - 0xDC00)) :: ·)
        else none
      | [] => none
    else (join? rest).map (Char.ofNat n :: ·)

def readText? (text : List Char) : Option (Option String × List Char) :=
  (readUnits? text).map fun (units, rest) => ((join? units).map String.ofList, rest)

-- `limit` bounds the calls in one another; two for every character are enough.
mutual

def readValue? : Nat → List Char → Option (Json × List Char)
  | 0, _ => none
  | limit + 1, text =>
    match skip text with
    | 'n' :: 'u' :: 'l' :: 'l' :: rest => some (.null, rest)
    | 't' :: 'r' :: 'u' :: 'e' :: rest => some (.bool true, rest)
    | 'f' :: 'a' :: 'l' :: 's' :: 'e' :: rest => some (.bool false, rest)
    | '\x22' :: rest => (readText? rest).map fun (s, rest) => (.string s, rest)
    | '[' :: rest =>
      match skip rest with
      | ']' :: rest => some (.array [], rest)
      | rest => (readItems? limit rest).map fun (items, rest) => (.array items, rest)
    | '\x7b' :: rest =>
      match skip rest with
      | '\x7d' :: rest => some (.object [], rest)
      | rest => (readMembers? limit rest).map fun (members, rest) => (.object members, rest)
    | rest => readNumber? rest

def readItems? : Nat → List Char → Option (List Json × List Char)
  | 0, _ => none
  | limit + 1, text => do
    let (v, rest) ← readValue? limit text
    match skip rest with
    | ',' :: rest =>
      let (vs, rest) ← readItems? limit rest
      some (v :: vs, rest)
    | ']' :: rest => some ([v], rest)
    | _ => none

def readMembers? : Nat → List Char → Option (List (Option String × Json) × List Char)
  | 0, _ => none
  | limit + 1, text =>
    match skip text with
    | '\x22' :: rest => do
      let (k, rest) ← readText? rest
      match skip rest with
      | ':' :: rest =>
        let (v, rest) ← readValue? limit rest
        match skip rest with
        | ',' :: rest =>
          let (ms, rest) ← readMembers? limit rest
          some ((k, v) :: ms, rest)
        | '\x7d' :: rest => some ([(k, v)], rest)
        | _ => none
      | _ => none
    | _ => none

end

def ofChars? (text : List Char) : Option Json :=
  match readValue? (2 * text.length + 2) text with
  | some (v, rest) => if (skip rest).isEmpty then some v else none
  | none => none

def ofText? (text : String) : Option Json := ofChars? text.toList

end DirWatch.Json
