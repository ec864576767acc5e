import DirWatch.Entry

namespace DirWatch

inductive ChangeKind
  | added
  | removed
  | modified
deriving DecidableEq, Repr

namespace ChangeKind

def all : List ChangeKind := [added, removed, modified]

def label : ChangeKind → String
  | added => "added"
  | removed => "removed"
  | modified => "modified"

def ofLabel? (text : String) : Option ChangeKind := all.find? (·.label == text)

end ChangeKind

structure Change where
  kind : ChangeKind
  entry : Entry
deriving DecidableEq, Repr

namespace Change

def added (e : Entry) : Change := ⟨.added, e⟩
def removed (e : Entry) : Change := ⟨.removed, e⟩
def modified (e : Entry) : Change := ⟨.modified, e⟩

def path (c : Change) : Path := c.entry.path

-- A file keeps these three when it is renamed.
def alike (a b : Entry) : Bool :=
  a.isDirectory == b.isDirectory && a.size == b.size && a.written == b.written

def takeAlike (e : Entry) : List Entry → Option (Entry × List Entry)
  | [] => none
  | r :: rest =>
    if alike r e then some (r, rest)
    else (takeAlike e rest).map fun (found, others) => (found, r :: others)

def pairWith : List Entry → List Entry → List (Path × Path)
  | _, [] => []
  | gone, e :: rest =>
    match takeAlike e gone with
    | some (r, others) => (r.path, e.path) :: pairWith others rest
    | none => pairWith gone rest

-- Each added entry with the first removed one like it that is not yet taken, as old and new path.
def renames (changes : List Change) : List (Path × Path) :=
  pairWith ((changes.filter (·.kind == .removed)).map Change.entry)
    ((changes.filter (·.kind == .added)).map Change.entry)

end Change

end DirWatch
