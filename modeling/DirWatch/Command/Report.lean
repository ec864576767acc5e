import DirWatch.Interchange
import DirWatch.Text.Align

namespace DirWatch

-- The paths that were asked for, by the handles of their watches.
structure Report where
  asJson : Bool
  roots : List (Handle × Path)
deriving DecidableEq, Repr

namespace Report

-- The path of a watch as it was given, and the last one if it was given twice.
def rootOf (r : Report) (h : Handle) : Path := (r.roots.reverse.lookup h).getD (.ofString "?")

def changeJson? (c : Change) : Option Json := do
  let path ← c.path.toJson?
  some (.record [
    ("file", .record [("is_directory", .bool c.entry.isDirectory),
      ("last_write_time", Entry.writtenJson c.entry.written), ("path", path),
      ("size", .natural c.entry.size.toNat)]),
    ("kind", c.kind.toJson)])

def lineJson? (h : Handle) (root : Path) (c : Change) : Option Json := do
  some (.record [("event", ← changeJson? c), ("root", ← root.toJson?), ("watch", h.toJson)])

def changeLine (root : Path) (c : Change) : String :=
  String.ofList (Text.align .left ' ' 8 c.kind.label.toList) ++ " " ++ (root.join c.path).display ++
    if c.entry.isDirectory then "/" else ""

def renameLine (root : Path) (ends : Path × Path) : String :=
  "renamed  " ++ (root.join ends.1).display ++ " -> " ++ (root.join ends.2).display

-- The lines for some changes; as JSON there are none unless every path is a text.
def lines? (r : Report) (h : Handle) (changes : List Change) : Option (List String) :=
  let root := r.rootOf h
  if r.asJson then changes.mapM fun c => (lineJson? h root c).map Json.toText
  else some (changes.map (changeLine root) ++ (Change.renames changes).map (renameLine root))

-- The JSON lines that are out before the first change with a path that is not a text.
def linesBefore (h : Handle) (root : Path) : List Change → List String
  | [] => []
  | c :: rest =>
    match lineJson? h root c with
    | some line => line.toText :: linesBefore h root rest
    | none => []

end Report

end DirWatch
