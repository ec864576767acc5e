import DirWatch.Entry

namespace DirWatch

inductive Action
  | added
  | removed
  | modified
  | renamedFrom
  | renamedTo
deriving DecidableEq, Repr

namespace Action

def all : List Action := [added, removed, modified, renamedFrom, renamedTo]

def label : Action → String
  | added => "added"
  | removed => "removed"
  | modified => "modified"
  | renamedFrom => "renamed_from"
  | renamedTo => "renamed_to"

def ofLabel? (text : String) : Option Action := all.find? (·.label == text)

end Action

-- The path is relative to the root of the watch.
structure Record where
  action : Action
  path : Path
deriving DecidableEq, Repr

inductive NativeKind
  | access
  | create
  | remove
  | renameFrom
  | renameTo
  | renameBoth
  | renameUnclear
  | change
deriving DecidableEq, Repr

namespace NativeKind

def hasStart (start text : List Char) : Bool := start.isPrefixOf text

-- The kind behind a name such as `create/file` or `modify/name/from`.
def ofName (text : String) : NativeKind :=
  let chars := text.toList
  if hasStart "access".toList chars then access
  else if hasStart "create".toList chars then create
  else if hasStart "remove".toList chars then remove
  else if text = "modify/name/from" then renameFrom
  else if text = "modify/name/to" then renameTo
  else if text = "modify/name/both" then renameBoth
  else if hasStart "modify/name".toList chars then renameUnclear
  else change

end NativeKind

-- The paths are those of the file system, not yet relative to any root.
structure NativeEvent where
  kind : NativeKind
  paths : List Path
deriving DecidableEq, Repr

namespace Record

def below? (root : Path) (action : Action) (path : Path) : Option Record :=
  (path.relativeTo? root).map (⟨action, ·⟩)

-- What an event means for the watch on `root`; paths elsewhere mean nothing. A rename that does not
-- say which end it saw is settled by what `stands` on disk.
def ofNative (stands : Path → Bool) (root : Path) (event : NativeEvent) : List Record :=
  match event.kind with
  | .access => []
  | .create => event.paths.filterMap (below? root .added)
  | .remove => event.paths.filterMap (below? root .removed)
  | .renameFrom => event.paths.filterMap (below? root .renamedFrom)
  | .renameTo => event.paths.filterMap (below? root .renamedTo)
  | .renameBoth =>
    (event.paths.take 1).filterMap (below? root .renamedFrom) ++
      ((event.paths.drop 1).take 1).filterMap (below? root .renamedTo)
  | .renameUnclear =>
    event.paths.filterMap fun path =>
      below? root (if stands path then .renamedTo else .renamedFrom) path
  | .change => event.paths.filterMap (below? root .modified)

end Record

end DirWatch
