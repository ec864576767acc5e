import DirWatch.Text.Utf8
import DirWatch.Text.Visible

namespace DirWatch.Text

def hexDigits (n : Nat) : List Char := Nat.toDigits 16 n

-- What would not show is escaped: a character by its number, and what is no UTF-8 byte by byte.
def quotedChar (c : Char) : List Char :=
  if c = '\x00' then ['\\', '0']
  else if c = '\t' then ['\\', 't']
  else if c = '\r' then ['\\', 'r']
  else if c = '\n' then ['\\', 'n']
  else if c = '\x22' || c = '\\' then ['\\', c]
  else if isVisible c then [c]
  else '\\' :: 'u' :: '\x7b' :: hexDigits c.toNat ++ ['\x7d']

def quotedByte (b : UInt8) : List Char :=
  let digits := (hexDigits b.toNat).map Char.toUpper
  '\\' :: 'x' :: List.replicate (2 - digits.length) '0' ++ digits

def quotedPiece : Utf8.Piece → List Char
  | .char c => quotedChar c
  | .broken bytes => bytes.flatMap quotedByte

def quoted (bytes : Bytes) : List Char :=
  '\x22' :: (Utf8.pieces bytes).flatMap quotedPiece ++ ['\x22']

end DirWatch.Text
