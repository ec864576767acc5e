import DirWatch.Notification
import DirWatch.Scan
import DirWatch.Snapshot.Diff

namespace DirWatch

-- What a batch led to. `rootRemoved` says that the root itself is no directory any more.
structure Outcome where
  snapshot : Snapshot
  changes : List Change
  rootRemoved : Bool
deriving DecidableEq, Repr

namespace Reconcile

abbrev Step := Snapshot × List Change

def heads : List Name → List (List Name)
  | [] => []
  | n :: rest => [n] :: (heads rest).map (n :: ·)

def excluded (scope : Scope) (names : List Name) : Bool :=
  (heads names).any fun head => scope.excludes.excludes (.ofNames head)

def look (d : Disk) (scope : Scope) (s : Snapshot) (names : List Name) : Option Entry :=
  (d.stat s.root (.ofNames names) scope.followLinks).toOption

-- Takes in an entry that is not in the snapshot. What a new directory holds comes with it, for nobody
-- may report it.
def insertNew (d : Disk) (scope : Scope) (s : Snapshot) (fresh : Entry) : Step :=
  let s := s.insert fresh
  if fresh.isDirectory && scope.recursive then
    match s.scanInto d scope fresh.path with
    | .ok (t, new) => (t, .added fresh :: (new.filterMap t.get?).map .added)
    | .error _ => (s, [.added fresh])
  else (s, [.added fresh])

def dropSubtree (s : Snapshot) (path : Path) : Step :=
  (s.removeSubtree path, (s.subtree path).map .removed)

def replace (d : Disk) (scope : Scope) (s : Snapshot) (fresh : Entry) : Step :=
  let (s, gone) := dropSubtree s fresh.path
  let (s, new) := insertNew d scope s fresh
  (s, gone ++ new)

def update (s : Snapshot) (fresh : Entry) : Step := (s.insert fresh, [.modified fresh])

def refresh (d : Disk) (scope : Scope) (s : Snapshot) (dir : Path) : Step :=
  match (Snapshot.empty s.root).scanInto d scope dir with
  | .ok (current, _) =>
    let changes := ((Snapshot.empty s.root).insertAll (s.below dir)).diff current
    (s.replayAll changes, changes)
  | .error _ => (s, [])

-- The highest directory on the way to `names` that the snapshot lacks.
def missingAncestor (s : Snapshot) (names : List Name) : Option (List Name) :=
  ((heads names.dropLast).reverse.takeWhile fun head => !s.contains (.ofNames head)).getLast?

def add (d : Disk) (scope : Scope) (s : Snapshot) (names : List Name) : Step :=
  match look d scope s names with
  | none => (s, [])
  | some fresh =>
    match s.get? (.ofNames names) with
    | none =>
      match missingAncestor s names with
      | some ancestor =>
        match look d scope s ancestor with
        | some top => insertNew d scope s top
        | none => (s, [])
      | none => insertNew d scope s fresh
    | some known =>
      if known.isDirectory != fresh.isDirectory then replace d scope s fresh
      else if known.differs fresh then update s fresh
      else (s, [])

-- A removal too is only a hint: the entry may stand there again.
def remove (d : Disk) (scope : Scope) (s : Snapshot) (names : List Name) : Step :=
  match s.get? (.ofNames names) with
  | none => (s, [])
  | some known =>
    match look d scope s names with
    | none => dropSubtree s (.ofNames names)
    | some fresh =>
      if known.isDirectory != fresh.isDirectory then replace d scope s fresh
      else if fresh.isDirectory then
        if scope.recursive then refresh d scope (s.insert fresh) (.ofNames names)
        else (s.insert fresh, [])
      else if known.differs fresh then update s fresh
      else (s, [])

def modify (d : Disk) (scope : Scope) (s : Snapshot) (names : List Name) : Step :=
  match s.get? (.ofNames names) with
  | none => (s, [])
  | some known =>
    match look d scope s names with
    | none => (s, [])
    | some fresh =>
      if known.isDirectory != fresh.isDirectory then replace d scope s fresh
      else if known.differs fresh then update s fresh
      else if fresh.isDirectory then (s.insert fresh, [])
      else (s, [])

-- Follows one hint about a path below the root. What the disk shows there now decides, not what is
-- claimed.
def apply (d : Disk) (scope : Scope) (s : Snapshot) (action : Action) (names : List Name) : Step :=
  if !scope.recursive && names.length > 1 then (s, [])
  else if excluded scope names then (s, [])
  else match action with
    | .added | .renamedTo => add d scope s names
    | .removed | .renamedFrom => remove d scope s names
    | .modified => modify d scope s names

-- Follows the hints in turn. Records that lead out of the root, or to the root itself, are none.
def applyAll (d : Disk) (scope : Scope) (s : Snapshot) : List Record → Step
  | [] => (s, [])
  | r :: rest =>
    match r.path.names? with
    | none | some [] => applyAll d scope s rest
    | some names =>
      let (s, first) := apply d scope s r.action names
      let (s, later) := applyAll d scope s rest
      (s, first ++ later)

def touchesRoot (records : List Record) : Bool := records.any (·.path.names? == some [])

def rootLost (s : Snapshot) (changes : List Change) : Outcome :=
  let (s, gone) := dropSubtree s .empty
  ⟨s, changes ++ gone, true⟩

-- Applies a batch of records. A record about the root itself asks whether the root is still there.
def batch (d : Disk) (scope : Scope) (s : Snapshot) (records : List Record) : Outcome :=
  let (t, changes) := applyAll d scope s records
  if touchesRoot records && !d.isDir s.root then rootLost t changes else ⟨t, changes, false⟩

def rescan (d : Disk) (scope : Scope) (s : Snapshot) : Except MonitorError Outcome :=
  match Snapshot.scan d scope s.root with
  | .ok fresh => .ok ⟨fresh, s.diff fresh, false⟩
  | .error (.directoryNotFound _) | .error (.notADirectory _) => .ok (rootLost s [])
  | .error e => .error e

end Reconcile

end DirWatch
