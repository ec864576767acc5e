import DirWatch.Json.Basic

namespace DirWatch.Json

def hexDigit (n : Nat) : Char := if n < 10 then Char.ofNat (48 + n) else Char.ofNat (87 + n)

def escape (c : Char) : List Char :=
  if c = '\x22' || c = '\\' then ['\\', c]
  else if c = '\x08' then ['\\', 'b']
  else if c = '\t' then ['\\', 't']
  else if c = '\n' then ['\\', 'n']
  else if c = '\x0c' then ['\\', 'f']
  else if c = '\r' then ['\\', 'r']
  else if c.toNat < 0x20 then ['\\', 'u', '0', '0', hexDigit (c.toNat / 16), hexDigit (c.toNat % 16)]
  else [c]

-- Half a surrogate pair, for a string that is no text.
def brokenText : List Char := ['\\', 'u', 'd', '8', '0', '0']

def writeText : Option String → List Char
  | some s => '\x22' :: s.toList.flatMap escape ++ ['\x22']
  | none => '\x22' :: brokenText ++ ['\x22']

mutual

def write : Json → List Char
  | .null => ['n', 'u', 'l', 'l']
  | .bool true => ['t', 'r', 'u', 'e']
  | .bool false => ['f', 'a', 'l', 's', 'e']
  | .natural n => Nat.toDigits 10 n
  | .number spelling => spelling
  | .string s => writeText s
  | .array items => '[' :: writeItems items ++ [']']
  | .object members => '\x7b' :: writeMembers members ++ ['\x7d']

def writeItems : List Json → List Char
  | [] => []
  | [v] => write v
  | v :: w :: rest => write v ++ ',' :: writeItems (w :: rest)

def writeMember : Option String × Json → List Char
  | (k, v) => writeText k ++ ':' :: write v

def writeMembers : List (Option String × Json) → List Char
  | [] => []
  | [m] => writeMember m
  | m :: n :: rest => writeMember m ++ ',' :: writeMembers (n :: rest)

end

def toText (v : Json) : String := String.ofList v.write

end DirWatch.Json
