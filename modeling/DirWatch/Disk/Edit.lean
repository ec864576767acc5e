import DirWatch.Disk.Lookup

namespace DirWatch

-- A directory's write time changes only when it is set, never because something in it came or went.
inductive Edit
  | makeDir (path : Path) (written : Instant)
  | makeFile (path : Path) (size : UInt64) (written : Instant)
  | makeLink (path target : Path) (written : Instant)
  | touch (path : Path) (written : Instant)
  | remove (path : Path)
  | move (path target : Path)
deriving DecidableEq, Repr

namespace Listing

-- An ordered listing, as edits pass it on.
abbrev Sound := { l : Listing // l.Ordered }

def editAt (f : Sound → Option Sound) : Place → Sound → Option Sound
  | [], l => f l
  | n :: rest, l =>
    match found : l.val.find? n with
    | some (.dir t inside) =>
      have sound := @ordered_find? none _ _ _ l.property found
      (editAt f rest ⟨inside, sound.1⟩).map fun edited =>
        ⟨l.val.set n (.dir t edited.val), ordered_set sound.2 edited.property l.property⟩
    | _ => none

def put? (n : Name) (node : Node) (h : node.Ordered) (l : Sound) : Option Sound :=
  if hs : n.isStorable = true then some ⟨l.val.set n node, ordered_set hs h l.property⟩ else none

def drop? (n : Name) (l : Sound) : Option Sound :=
  if (l.val.find? n).isSome then some ⟨l.val.erase n, ordered_erase l.property⟩ else none

end Listing

abbrev Node.Sound := { n : Node // n.Ordered }

namespace Node

def at?Sound : Place → Sound → Option Sound
  | [], node => some node
  | n :: rest, ⟨.dir _ inside, h⟩ =>
    match found : inside.find? n with
    | some node => at?Sound rest ⟨node, (@Listing.ordered_find? none _ _ _ h found).1⟩
    | none => none
  | _ :: _, _ => none

theorem ordered_withWritten {t : Instant} {n : Node} (h : n.Ordered) : (n.withWritten t).Ordered := by
  cases n <;> exact h

end Node

namespace Disk

def editAt (d : Disk) (place : Place) (f : Listing.Sound → Option Listing.Sound) : Option Disk :=
  (Listing.editAt f place ⟨d.top, d.ordered⟩).map fun l => ⟨d.written, l.val, l.property⟩

def soundAt? (d : Disk) (place : Place) : Option Node.Sound :=
  Node.at?Sound place ⟨d.node, d.ordered⟩

def putAt (d : Disk) (dir : Place) (n : Name) (node : Node.Sound) : Option Disk :=
  d.editAt dir (Listing.put? n node.val node.property)

def dropAt (d : Disk) (dir : Place) (n : Name) : Option Disk := d.editAt dir (Listing.drop? n)

-- The directory that an entry of this path stands in, links followed, and the entry's name.
def parent? (d : Disk) (path : Path) : Option (Place × Name) :=
  if path.bytes.contains 0 then none
  else match ((steps path).reverse.dropWhile (· == .stay)) with
    | .down n :: above =>
      match d.resolve true linkBudget [] above.reverse with
      | .ok found => if found.node.isDir then some (found.place, n) else none
      | .error _ => none
    | _ => none

def found? (d : Disk) (path : Path) (last : Bool) : Option Found := (d.lookup path last).toOption

def create (d : Disk) (path : Path) (node : Node.Sound) : Option Disk := do
  let (dir, n) ← d.parent? path
  if (d.at? (dir ++ [n])).isSome then none else d.putAt dir n node

def replaceAt (d : Disk) (place : Place) (node : Node.Sound) : Option Disk :=
  match place.getLast? with
  | some n => d.putAt place.dropLast n node
  | none => none

def touch (d : Disk) (path : Path) (t : Instant) : Option Disk := do
  let found ← d.found? path false
  if found.place.isEmpty then some { d with written := t }
  else
    let node ← d.soundAt? found.place
    d.replaceAt found.place ⟨node.val.withWritten t, Node.ordered_withWritten node.property⟩

def remove (d : Disk) (path : Path) : Option Disk := do
  let found ← d.found? path false
  let n ← found.place.getLast?
  d.dropAt found.place.dropLast n

-- What may give way to a moved entry: a file or link to anything but a directory, an empty directory
-- to a directory.
def yields (moved : Node) : Option Node → Bool
  | none => true
  | some (.dir _ inside) => moved.isDir && inside.isEmpty
  | some _ => !moved.isDir

def move (d : Disk) (path target : Path) : Option Disk := do
  let found ← d.found? path false
  let n ← found.place.getLast?
  let node ← d.soundAt? found.place
  let (dir, name) ← d.parent? target
  if found.place = dir ++ [name] then some d
  else if found.place.isPrefixOf dir then none
  else if yields node.val (d.at? (dir ++ [name])) then
    (← d.dropAt found.place.dropLast n).putAt dir name node
  else none

def apply (d : Disk) : Edit → Option Disk
  | .makeDir path t => d.create path ⟨.dir t .done, rfl⟩
  | .makeFile path size t =>
    match d.lookup path true with
    | .ok ⟨place, .file .., _⟩ => d.replaceAt place ⟨.file size t, trivial⟩
    | .ok _ => none
    | .error _ => d.create path ⟨.file size t, trivial⟩
  | .makeLink path target t => d.create path ⟨.link target t, trivial⟩
  | .touch path t => d.touch path t
  | .remove path => d.remove path
  | .move path target => d.move path target

-- As many of the edits as can be done, in turn.
def applyAll (d : Disk) (edits : List Edit) : Disk :=
  edits.foldl (fun d edit => (d.apply edit).getD d) d

end Disk

end DirWatch
