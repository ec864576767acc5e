import DirWatch.Disk.Basic
import DirWatch.Error.Basic

namespace DirWatch

inductive LookupError
  | missing
  | notDirectory
  | tooManyLinks
  | nameTooLong
  | nulByte
deriving DecidableEq, Repr

def LookupError.fault : LookupError → Fault
  | missing => .os Errno.missing
  | notDirectory => .os Errno.notDirectory
  | tooManyLinks => .os Errno.tooManyLinks
  | nameTooLong => .os Errno.nameTooLong
  | nulByte => .described "file name contained an unexpected NUL byte"

namespace Disk

-- One step of a lookup, to be taken from a directory. `stay` is a dot or an empty piece.
inductive Step
  | stay
  | up
  | down (n : Name)
deriving DecidableEq, Repr

def Step.ofPiece (piece : Bytes) : Step :=
  if piece = [46, 46] then up
  else match Name.ofBytes? piece with
    | some n => down n
    | none => stay

def steps (path : Path) : List Step := (Path.split path.bytes).map Step.ofPiece

-- Where a lookup ended, what is there, and how many more links could have been followed.
structure Found where
  place : Place
  node : Node
  budget : Nat
deriving DecidableEq, Repr

abbrev Lookup := Except LookupError Found

-- Takes the steps from `place` on; `follow` goes on when a link is to be followed, from the directory
-- that its target starts in. The last step ends at a link itself unless `last` is set.
def trace (d : Disk) (follow : Place → List Step → Lookup) (budget : Nat) (last : Bool) :
    Place → List Step → Lookup
  | place, [] =>
    match d.at? place with
    | some node => .ok ⟨place, node, budget⟩
    | none => .error .missing
  | place, step :: rest =>
    match d.at? place with
    | some (.dir _ inside) =>
      match step with
      | .stay => trace d follow budget last place rest
      | .up => trace d follow budget last place.dropLast rest
      | .down n =>
        if n.bytes.length > 255 then .error .nameTooLong
        else match inside.find? n with
          | none => .error .missing
          | some (.link target t) =>
            if rest.isEmpty && !last then .ok ⟨place ++ [n], .link target t, budget⟩
            else follow (if target.isAbsolute then [] else place) (steps target ++ rest)
          | some _ => trace d follow budget last (place ++ [n]) rest
    | _ => .error .notDirectory

def resolve (d : Disk) (last : Bool) : Nat → Place → List Step → Lookup
  | 0 => d.trace (fun _ _ => .error .tooManyLinks) 0 last
  | budget + 1 => d.trace (d.resolve last budget) (budget + 1) last

def linkBudget : Nat := 40

-- What a path leads to; relative paths start at the top.
def lookup (d : Disk) (path : Path) (last : Bool) : Lookup :=
  if path.bytes.contains 0 then .error .nulByte
  else if path.bytes.isEmpty then .error .missing
  else d.resolve last linkBudget [] (steps path)

-- Whether the path leads to a directory, links followed.
def isDir (d : Disk) (path : Path) : Bool :=
  match d.lookup path true with
  | .ok found => found.node.isDir
  | .error _ => false

-- Whether something stands at an absolute path, if only a link.
def stands (d : Disk) (path : Path) : Bool :=
  path.isAbsolute && match d.lookup path false with
  | .ok _ => true
  | .error _ => false

def canonical (d : Disk) (path : Path) : Except LookupError Path :=
  (d.lookup path true).map fun found => Path.ofPlace found.place

end Disk

end DirWatch
