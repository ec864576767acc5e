namespace DirWatch.Wildcard

inductive Token
  | any
  | one
  | char (c : Char)
deriving DecidableEq, Repr

def Token.ofChar (c : Char) : Token :=
  if c = '*' then any else if c = '?' then one else char c

def Token.accepts : Token → Char → Bool
  | any, _ => true
  | one, _ => true
  | char c, d => c == d

-- The answer for a suffix after a star: that of the suffix itself or of any shorter one.
def spread : List Bool → List Bool
  | [] => []
  | b :: rest =>
    let later := spread rest
    (b || later.headD false) :: later

def shift (t : Token) : List Char → List Bool → List Bool
  | [], _ => [false]
  | c :: text, answers => (t.accepts c && answers.tail.headD false) :: shift t text answers.tail

-- For the text and each of its suffixes in turn, whether the pattern matches it; so stars never make it
-- search twice.
def row : List Token → List Char → List Bool
  | [], text => text.map (fun _ => false) ++ [true]
  | .any :: pattern, text => spread (row pattern text)
  | t :: pattern, text => shift t text (row pattern text)

def Matches (pattern : List Token) (text : List Char) : Bool := (row pattern text).headD false

def compile (pattern : String) : List Token := pattern.toList.map Token.ofChar

end DirWatch.Wildcard
