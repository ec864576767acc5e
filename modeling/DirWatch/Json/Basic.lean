namespace DirWatch

-- `natural` is a number of digits alone; every other number keeps its spelling.
inductive Json
  | null
  | bool (b : Bool)
  | natural (n : Nat)
  | number (spelling : List Char)
  | string (text : Option String)
  | array (items : List Json)
  | object (members : List (Option String × Json))
deriving Repr

namespace Json

def text (s : String) : Json := .string (some s)

def text? : Json → Option String
  | .string s => s
  | _ => none

def bool? : Json → Option Bool
  | .bool b => some b
  | _ => none

def word? : Json → Option UInt64
  | .natural n => if n < UInt64.size then some (.ofNat n) else none
  | _ => none

def record (members : List (String × Json)) : Json :=
  .object (members.map fun (k, v) => (some k, v))

-- The members whose names are known, none of which may come twice. Other members do not matter, but
-- every name has to be a text.
def known? (names : List String) : List (Option String × Json) → Option (List (String × Json))
  | [] => some []
  | (none, _) :: _ => none
  | (some k, v) :: rest =>
    match known? names rest with
    | none => none
    | some found =>
      if !names.contains k then some found
      else if (found.lookup k).isSome then none
      else some ((k, v) :: found)

end Json

end DirWatch
