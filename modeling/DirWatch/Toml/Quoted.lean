import DirWatch.Json.Reader

namespace DirWatch.Toml

def isLineChar (c : Char) : Bool := c == '\t' || (c.toNat ≥ 0x20 && c.toNat != 0x7F)

def isSpace (c : Char) : Bool := c == ' ' || c == '\t'

def hexNumber? (digits : List Char) : Option Nat :=
  digits.foldlM (fun n c => (Json.hexValue? c).map (n * 16 + ·)) 0

def charOf? (n : Nat) : Option Char := if n.isValidChar then some (Char.ofNat n) else none

def hexChar? (digits : List Char) : Option Char := (hexNumber? digits).bind charOf?

def shortEscape? : Char → Option Char
  | 'b' => some '\x08'
  | 't' => some '\t'
  | 'n' => some '\n'
  | 'f' => some '\x0c'
  | 'r' => some '\r'
  | 'e' => some '\x1b'
  | '\x22' => some '\x22'
  | '\\' => some '\\'
  | _ => none

abbrev Quoted := Option (List Char × List Char)

def Quoted.push (c : Option Char) (q : Quoted) : Quoted := do
  let (text, rest) ← q
  some ((← c) :: text, rest)

def basic? : List Char → Quoted
  | [] => none
  | '\x22' :: rest => some ([], rest)
  | '\\' :: 'x' :: a :: b :: rest => Quoted.push (hexChar? [a, b]) (basic? rest)
  | '\\' :: 'u' :: a :: b :: c :: d :: rest => Quoted.push (hexChar? [a, b, c, d]) (basic? rest)
  | '\\' :: 'U' :: a :: b :: c :: d :: e :: f :: g :: h :: rest =>
    Quoted.push (hexChar? [a, b, c, d, e, f, g, h]) (basic? rest)
  | '\\' :: c :: rest => Quoted.push (shortEscape? c) (basic? rest)
  | c :: rest => if isLineChar c && c != '\\' then Quoted.push (some c) (basic? rest) else none

def literal? : List Char → Quoted
  | [] => none
  | '\'' :: rest => some ([], rest)
  | c :: rest => if isLineChar c then Quoted.push (some c) (literal? rest) else none

def lineEnds (text : List Char) : Bool :=
  match text.dropWhile isSpace with
  | '\n' :: _ | '\r' :: '\n' :: _ => true
  | _ => false

-- Up to two quotes may stand right before the closing three. A backslash at the end of a line takes
-- away all blanks that follow; `joining` says that some are being taken away.
def basicLines? : Bool → List Char → Quoted
  | _, [] => none
  | _, '\x22' :: '\x22' :: '\x22' :: '\x22' :: '\x22' :: rest => some (['\x22', '\x22'], rest)
  | _, '\x22' :: '\x22' :: '\x22' :: '\x22' :: rest => some (['\x22'], rest)
  | _, '\x22' :: '\x22' :: '\x22' :: rest => some ([], rest)
  | true, ' ' :: rest => basicLines? true rest
  | true, '\t' :: rest => basicLines? true rest
  | true, '\n' :: rest => basicLines? true rest
  | true, '\r' :: '\n' :: rest => basicLines? true rest
  | _, '\r' :: '\n' :: rest => Quoted.push (some '\r') (Quoted.push (some '\n') (basicLines? false rest))
  | _, '\n' :: rest => Quoted.push (some '\n') (basicLines? false rest)
  | _, '\\' :: 'x' :: a :: b :: rest => Quoted.push (hexChar? [a, b]) (basicLines? false rest)
  | _, '\\' :: 'u' :: a :: b :: c :: d :: rest =>
    Quoted.push (hexChar? [a, b, c, d]) (basicLines? false rest)
  | _, '\\' :: 'U' :: a :: b :: c :: d :: e :: f :: g :: h :: rest =>
    Quoted.push (hexChar? [a, b, c, d, e, f, g, h]) (basicLines? false rest)
  | _, '\\' :: c :: rest =>
    if lineEnds (c :: rest) then basicLines? true (c :: rest)
    else Quoted.push (shortEscape? c) (basicLines? false rest)
  | _, c :: rest =>
    if isLineChar c && c != '\\' then Quoted.push (some c) (basicLines? false rest) else none

def literalLines? : List Char → Quoted
  | [] => none
  | '\'' :: '\'' :: '\'' :: '\'' :: '\'' :: rest => some (['\'', '\''], rest)
  | '\'' :: '\'' :: '\'' :: '\'' :: rest => some (['\''], rest)
  | '\'' :: '\'' :: '\'' :: rest => some ([], rest)
  | '\r' :: '\n' :: rest => Quoted.push (some '\r') (Quoted.push (some '\n') (literalLines? rest))
  | '\n' :: rest => Quoted.push (some '\n') (literalLines? rest)
  | c :: rest => if isLineChar c then Quoted.push (some c) (literalLines? rest) else none

def dropLineEnd : List Char → List Char
  | '\n' :: rest | '\r' :: '\n' :: rest => rest
  | rest => rest

def quoted? : List Char → Quoted
  | '\x22' :: '\x22' :: '\x22' :: rest => basicLines? false (dropLineEnd rest)
  | '\x22' :: rest => basic? rest
  | '\'' :: '\'' :: '\'' :: rest => literalLines? (dropLineEnd rest)
  | '\'' :: rest => literal? rest
  | _ => none

end DirWatch.Toml
