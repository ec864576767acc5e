import DirWatch.Toml.Quoted
import DirWatch.Toml.Scalar

namespace DirWatch.Toml

def skipSpaces (text : List Char) : List Char := text.dropWhile isSpace

def endLine? (text : List Char) : Option (List Char) :=
  let rest := match skipSpaces text with
    | '#' :: comment => comment.dropWhile isLineChar
    | rest => rest
  match rest with
  | [] => some []
  | '\n' :: rest | '\r' :: '\n' :: rest => some rest
  | _ => none

def skipLines? : Bool → List Char → Option (List Char)
  | _, [] => some []
  | _, '\n' :: rest => skipLines? false rest
  | _, '\r' :: '\n' :: rest => skipLines? false rest
  | true, c :: rest => if isLineChar c then skipLines? true rest else none
  | false, c :: rest =>
    if isSpace c then skipLines? false rest
    else if c == '#' then skipLines? true rest
    else some (c :: rest)

def isBareChar (c : Char) : Bool := c.isAlphanum || c == '-' || c == '_'

def simpleKey? (text : List Char) : Option (String × List Char) :=
  match text with
  | '\x22' :: rest => (basic? rest).map fun (k, rest) => (String.ofList k, rest)
  | '\'' :: rest => (literal? rest).map fun (k, rest) => (String.ofList k, rest)
  | text =>
    match text.span isBareChar with
    | ([], _) => none
    | (k, rest) => some (String.ofList k, rest)

def key? : Nat → List Char → Option (List String × String × List Char)
  | 0, _ => none
  | limit + 1, text => do
    let (k, rest) ← simpleKey? (skipSpaces text)
    match skipSpaces rest with
    | '.' :: rest =>
      let (path, last, rest) ← key? limit rest
      some (k :: path, last, rest)
    | rest => some ([], k, rest)

def maxDepth : Nat := 80

-- `limit` bounds the calls in one another; two for every character are enough.
mutual

def value? : Nat → Nat → List Char → Option (Toml × List Char)
  | 0, _, _ => none
  | limit + 1, depth, text =>
    match text with
    | '\x22' :: _ | '\'' :: _ => (quoted? text).map fun (s, rest) => (.string (String.ofList s), rest)
    | '[' :: rest =>
      if depth = 0 then none
      else (items? limit (depth - 1) rest).map fun (items, rest) => (.array items, rest)
    | '\x7b' :: rest =>
      if depth = 0 then none
      else (pairs? limit (depth - 1) [] rest).map fun (entries, rest) => (.table .inline entries, rest)
    | text =>
      let (spelling, rest) := takeScalar text
      (scalar? spelling).map (·, rest)

def items? : Nat → Nat → List Char → Option (List Toml × List Char)
  | 0, _, _ => none
  | limit + 1, depth, text => do
    match ← skipLines? false text with
    | ']' :: rest => some ([], rest)
    | text =>
      let (v, rest) ← value? limit depth text
      match ← skipLines? false rest with
      | ',' :: rest =>
        let (vs, rest) ← items? limit depth rest
        some (v :: vs, rest)
      | ']' :: rest => some ([v], rest)
      | _ => none

def pairs? : Nat → Nat → Entries → List Char → Option (Entries × List Char)
  | 0, _, _, _ => none
  | limit + 1, depth, entries, text => do
    match ← skipLines? false text with
    | '\x7d' :: rest => some (entries, rest)
    | text =>
      let (path, k, rest) ← key? (limit + 1) text
      match rest with
      | '=' :: rest =>
        let (v, rest) ← value? limit depth (skipSpaces rest)
        let entries ← define path k v entries
        match ← skipLines? false rest with
        | ',' :: rest => pairs? limit depth entries rest
        | '\x7d' :: rest => some (entries, rest)
        | _ => none
      | _ => none

end

-- The document so far, and the path of the table that keys belong to now.
structure Draft where
  entries : Entries
  current : List String
deriving Repr

def header? (text : List Char) : Option (List String × String × List Char) := key? (text.length + 1) text

def line? (draft : Draft) (text : List Char) : Option (Draft × List Char) :=
  match text with
  | [] | '#' :: _ | '\n' :: _ | '\r' :: _ => (endLine? text).map (draft, ·)
  | '[' :: '[' :: rest => do
    let (path, k, rest) ← header? rest
    match rest with
    | ']' :: ']' :: rest =>
      some (⟨← openNext path k draft.entries, path ++ [k]⟩, ← endLine? rest)
    | _ => none
  | '[' :: rest => do
    let (path, k, rest) ← header? rest
    match rest with
    | ']' :: rest => some (⟨← openTable path k draft.entries, path ++ [k]⟩, ← endLine? rest)
    | _ => none
  | text => do
    let (path, k, rest) ← header? text
    match rest with
    | '=' :: rest =>
      let (v, rest) ← value? (2 * rest.length + 2) maxDepth (skipSpaces rest)
      some (⟨← inside (define path k v) draft.current draft.entries, draft.current⟩, ← endLine? rest)
    | _ => none

def lines? : Nat → Draft → List Char → Option Entries
  | 0, _, _ => none
  | limit + 1, draft, text =>
    match skipSpaces text with
    | [] => some draft.entries
    | text => do
      let (draft, rest) ← line? draft text
      lines? limit draft rest

-- A mark of the byte order at the very front does not count.
def dropMark : List Char → List Char
  | '\ufeff' :: rest => rest
  | text => text

def read? (text : String) : Option Entries :=
  let text := dropMark text.toList
  lines? (text.length + 1) ⟨[], []⟩ text

end DirWatch.Toml
