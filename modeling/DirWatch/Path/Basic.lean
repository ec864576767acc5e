import DirWatch.Text.Utf8

namespace DirWatch

namespace Name

def isProper (bytes : Bytes) : Bool :=
  !bytes.isEmpty && !bytes.contains 47 && bytes != [46] && bytes != [46, 46]

end Name

structure Name where
  bytes : Bytes
  proper : Name.isProper bytes = true
deriving DecidableEq, Repr

namespace Name

instance : Ord Name := ⟨fun a b => compare a.bytes b.bytes⟩

def ofBytes? (bytes : Bytes) : Option Name :=
  if h : isProper bytes = true then some ⟨bytes, h⟩ else none

end Name

inductive Component
  | root
  | here
  | up
  | name (n : Name)
deriving DecidableEq, Repr

namespace Component

def rank : Component → Nat
  | root => 0
  | here => 1
  | up => 2
  | name _ => 3

def bytes : Component → Bytes
  | root => [47]
  | here => [46]
  | up => [46, 46]
  | name n => n.bytes

instance : Ord Component := ⟨compareLex (compareOn rank) (compareOn bytes)⟩

-- A piece between two slashes. Nothing and a single dot name no component.
def ofPiece? (piece : Bytes) : Option Component :=
  if piece = [46, 46] then some up else (Name.ofBytes? piece).map name

theorem eq_of_rank_of_bytes {a b : Component} (hr : a.rank = b.rank) (hb : a.bytes = b.bytes) :
    a = b := by
  cases a <;> cases b <;> simp_all [rank, bytes]
  rename_i m n
  cases m; cases n; simp_all

instance : Std.TransOrd Component :=
  inferInstanceAs (Std.TransCmp (compareLex (compareOn rank) (compareOn bytes)))

instance : Std.LawfulEqOrd Component where
  eq_of_compare {a b} h := by
    have h : (compare a.rank b.rank).then (compare a.bytes b.bytes) = .eq := h
    rw [Ordering.then_eq_eq] at h
    exact eq_of_rank_of_bytes (Std.LawfulEqOrd.eq_of_compare h.1) (Std.LawfulEqOrd.eq_of_compare h.2)

end Component

-- A path is kept as it was written, byte for byte, and compared by its components: repeated and trailing
-- slashes and inner dots do not count.
structure Path where
  bytes : Bytes
deriving DecidableEq, Repr, Inhabited

namespace Path

-- The pieces between the slashes; there is always at least one.
def split : Bytes → List Bytes
  | [] => [[]]
  | b :: rest =>
    if b = 47 then [] :: split rest
    else match split rest with
      | [] => [[b]]
      | piece :: pieces => (b :: piece) :: pieces

def unsplit : List Bytes → Bytes
  | [] => []
  | [piece] => piece
  | piece :: pieces => piece ++ 47 :: unsplit pieces

def empty : Path := ⟨[]⟩

def ofString (text : String) : Path := ⟨Utf8.encode text⟩

def text? (p : Path) : Option String := Utf8.decode? p.bytes

def display (p : Path) : String := String.ofList (Utf8.lossy p.bytes)

def isAbsolute (p : Path) : Bool := p.bytes.head? == some 47

-- A single dot counts only at the very start of a relative path.
def leadingDot : List Bytes → Bool
  | [46] :: _ => true
  | _ => false

def components (p : Path) : List Component :=
  let pieces := split p.bytes
  let body := pieces.filterMap Component.ofPiece?
  if p.isAbsolute then .root :: body
  else if leadingDot pieces then .here :: body
  else body

instance : Ord Path := ⟨compareOn components⟩

instance : Std.TransOrd Path := inferInstanceAs (Std.TransCmp (compareOn components))

-- The same place, whatever the spelling.
def same (p q : Path) : Bool := p.components == q.components

def startsWith (p dir : Path) : Bool := dir.components.isPrefixOf p.components

theorem compare_eq_iff {p q : Path} : compare p q = .eq ↔ p.components = q.components := by
  show compare p.components q.components = .eq ↔ _
  exact Std.LawfulEqOrd.compare_eq_iff_eq

-- `dir` and then `p`, with a slash between them where one is missing; an absolute `p` stands alone.
def join (dir p : Path) : Path :=
  if p.isAbsolute then p
  else match dir.bytes.getLast? with
    | none => p
    | some 47 => ⟨dir.bytes ++ p.bytes⟩
    | some _ => ⟨dir.bytes ++ 47 :: p.bytes⟩

def ofName (n : Name) : Path := ⟨n.bytes⟩

def ofNames (names : List Name) : Path := ⟨unsplit (names.map Name.bytes)⟩

def ofPlace (names : List Name) : Path := ⟨47 :: unsplit (names.map Name.bytes)⟩

def namesOf : List Component → Option (List Name)
  | [] => some []
  | .name n :: rest => (namesOf rest).map (n :: ·)
  | .here :: rest => namesOf rest
  | _ => none

-- The names that a path leads through, if it is relative and never goes up.
def names? (p : Path) : Option (List Name) := namesOf p.components

def blank (piece : Bytes) : Bool := (Component.ofPiece? piece).isNone

def trimStart (pieces : List Bytes) : List Bytes := pieces.dropWhile blank

def trimEnd (pieces : List Bytes) : List Bytes := (pieces.reverse.dropWhile blank).reverse

-- Leaves out the first `n` pieces that are components, and whatever blank ones stand before them.
def dropComponents : Nat → List Bytes → List Bytes
  | 0, pieces => pieces
  | _ + 1, [] => []
  | n + 1, piece :: pieces =>
    if blank piece then dropComponents (n + 1) pieces else dropComponents n pieces

-- What is left of `p` below `dir`, in its own spelling but without slashes and dots at either end.
-- Below the empty path that is `p` itself, which keeps its start.
def relativeTo? (p dir : Path) : Option Path :=
  if p.startsWith dir then
    let pieces := split p.bytes
    let starts := p.isAbsolute || leadingDot pieces
    match dir.components.length with
    | 0 =>
      if starts then
        match trimEnd pieces.tail with
        | [] => some (if p.isAbsolute then ⟨[47]⟩ else ⟨[46]⟩)
        | rest => some ⟨unsplit (pieces.head?.getD [] :: rest)⟩
      else some ⟨unsplit (trimEnd pieces)⟩
    | n + 1 =>
      let rest := if starts then dropComponents n pieces.tail else dropComponents (n + 1) pieces
      some ⟨unsplit (trimEnd (trimStart rest))⟩
  else none

def lengthWord (c : List Component) : UInt64 :=
  c.foldl (fun word piece =>
    let sum := word + UInt64.ofNat piece.bytes.length
    (sum >>> 2) ||| (sum <<< 62)) 0

-- What a hash of the path depends on: the bytes of its components and their lengths, a leading
-- slash left out. Equal paths agree on it.
def hashKey (p : Path) : Bytes × UInt64 :=
  let parts := p.components.filter (· != .root)
  (parts.flatMap Component.bytes, lengthWord parts)

end Path

end DirWatch
