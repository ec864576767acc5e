namespace DirWatch

abbrev Bytes := List UInt8

namespace Utf8

inductive Piece
  | char (c : Char)
  | broken (bytes : Bytes)
deriving DecidableEq, Repr

-- A character whose first bytes were seen: `seen` in order, `value` so far, `left` bytes missing,
-- and the bounds on the next byte that keep surrogates, overlong forms and values past U+10FFFF out.
structure Partial where
  seen : Bytes
  value : Nat
  left : Nat
  low : UInt8
  high : UInt8
deriving DecidableEq, Repr

inductive Start
  | whole (c : Char)
  | lead (p : Partial)
  | wrong
deriving DecidableEq, Repr

def start (b : UInt8) : Start :=
  if b < 0x80 then .whole (Char.ofNat b.toNat)
  else if b < 0xC2 then .wrong
  else if b < 0xE0 then .lead ⟨[b], b.toNat - 0xC0, 1, 0x80, 0xBF⟩
  else if b < 0xF0 then
    .lead ⟨[b], b.toNat - 0xE0, 2, if b = 0xE0 then 0xA0 else 0x80, if b = 0xED then 0x9F else 0xBF⟩
  else if b < 0xF5 then
    .lead ⟨[b], b.toNat - 0xF0, 3, if b = 0xF0 then 0x90 else 0x80, if b = 0xF4 then 0x8F else 0xBF⟩
  else .wrong

def Partial.accepts (p : Partial) (b : UInt8) : Bool :=
  p.low ≤ b && b ≤ p.high

def Partial.push (p : Partial) (b : UInt8) : Partial :=
  ⟨p.seen ++ [b], p.value * 64 + (b.toNat - 0x80), p.left - 1, 0x80, 0xBF⟩

-- One byte at a time. A byte that cannot continue the character in hand ends it and starts anew.
def scan : Option Partial → Bytes → List Piece
  | none, [] => []
  | some p, [] => [.broken p.seen]
  | none, b :: rest =>
    match start b with
    | .whole c => .char c :: scan none rest
    | .lead p => scan (some p) rest
    | .wrong => .broken [b] :: scan none rest
  | some p, b :: rest =>
    if p.accepts b then
      if p.left = 1 then .char (Char.ofNat (p.push b).value) :: scan none rest
      else scan (some (p.push b)) rest
    else
      .broken p.seen ::
        match start b with
        | .whole c => .char c :: scan none rest
        | .lead q => scan (some q) rest
        | .wrong => .broken [b] :: scan none rest

def pieces (bytes : Bytes) : List Piece :=
  scan none bytes

def Piece.shown : Piece → Char
  | .char c => c
  | .broken _ => Char.ofNat 0xFFFD

-- The characters of a byte string, with U+FFFD for each stretch that is no UTF-8, which is as long as
-- the longest start of a character found there.
def lossy (bytes : Bytes) : List Char :=
  (pieces bytes).map Piece.shown

def decode? (bytes : Bytes) : Option String :=
  String.fromUTF8? ⟨bytes.toArray⟩

def encode (text : String) : Bytes :=
  text.toUTF8.data.toList

end Utf8

end DirWatch
