import DirWatch.Change
import DirWatch.Json.Reader
import DirWatch.Json.Writer
import DirWatch.Notification
import DirWatch.Settings
import DirWatch.Snapshot.Basic
import DirWatch.Subscription

namespace DirWatch

def Path.toJson? (p : Path) : Option Json := p.text?.map Json.text

def Path.ofJson? (v : Json) : Option Path := v.text?.map Path.ofString

-- Objects are written with their members in a fixed order, and read with them in any order and among
-- others, or as arrays of the values.
namespace Entry

def writtenJson : Option Instant → Json
  | some t => .text t.write
  | none => .null

def toJson? (e : Entry) : Option Json := do
  let path ← e.path.toJson?
  some (.record [("path", path), ("is_directory", .bool e.isDirectory),
    ("last_write_time", writtenJson e.written), ("size", .natural e.size.toNat)])

def writtenOfJson? : Json → Option (Option Instant)
  | .null => some none
  | .string (some s) => (Instant.read? s).map some
  | _ => none

def ofValues? (path isDirectory written size : Json) : Option Entry := do
  some ⟨← Path.ofJson? path, ← isDirectory.bool?, ← writtenOfJson? written, ← size.word?⟩

def ofJson? : Json → Option Entry
  | .object members => do
    let found ← Json.known? ["path", "is_directory", "last_write_time", "size"] members
    ofValues? (← found.lookup "path") (← found.lookup "is_directory")
      ((found.lookup "last_write_time").getD .null) (← found.lookup "size")
  | .array [path, isDirectory, written, size] => ofValues? path isDirectory written size
  | _ => none

end Entry

def labelOfJson? : Json → Option String
  | .string s => s
  | .object [(some label, .null)] => some label
  | _ => none

def ChangeKind.toJson (k : ChangeKind) : Json := .text k.label

def ChangeKind.ofJson? (v : Json) : Option ChangeKind := (labelOfJson? v).bind ofLabel?

def Action.toJson (a : Action) : Json := .text a.label

def Action.ofJson? (v : Json) : Option Action := (labelOfJson? v).bind ofLabel?

namespace Change

def toJson? (c : Change) : Option Json := do
  let entry ← c.entry.toJson?
  some (.record [("kind", c.kind.toJson), ("file", entry)])

def ofValues? (kind entry : Json) : Option Change := do
  some ⟨← ChangeKind.ofJson? kind, ← Entry.ofJson? entry⟩

def ofJson? : Json → Option Change
  | .object members => do
    let found ← Json.known? ["kind", "file"] members
    ofValues? (← found.lookup "kind") (← found.lookup "file")
  | .array [kind, entry] => ofValues? kind entry
  | _ => none

end Change

namespace Record

def toJson? (r : Record) : Option Json := do
  let path ← r.path.toJson?
  some (.record [("action", r.action.toJson), ("path", path)])

def ofValues? (action path : Json) : Option Record := do
  some ⟨← Action.ofJson? action, ← Path.ofJson? path⟩

def ofJson? : Json → Option Record
  | .object members => do
    let found ← Json.known? ["action", "path"] members
    ofValues? (← found.lookup "action") (← found.lookup "path")
  | .array [action, path] => ofValues? action path
  | _ => none

end Record

def Handle.toJson (h : Handle) : Json := .natural h.id.toNat

def Handle.ofJson? (v : Json) : Option Handle := v.word?.map Handle.mk

namespace Settings

def toJson (s : Settings) : Json :=
  .record [("buffer_capacity", .natural s.bufferCapacity.toNat),
    ("stop_poll_interval_ms", .natural s.stopPollMillis.toNat),
    ("exclude_patterns", .array (s.excludePatterns.map Json.text)),
    ("follow_symlinks", .bool s.followLinks)]

def patternsOfJson? : Json → Option (List String)
  | .array items => items.mapM Json.text?
  | _ => none

-- A value that is given has to be a right one; one that is not is the default.
def orDefault {α : Type} (default : α) (read : Json → Option α) : Option Json → Option α
  | some v => read v
  | none => some default

def ofValues? (capacity interval patterns links : Option Json) : Option Settings := do
  some {
    bufferCapacity := ← orDefault defaults.bufferCapacity Json.word? capacity
    stopPollMillis := ← orDefault defaults.stopPollMillis Json.word? interval
    excludePatterns := ← orDefault defaults.excludePatterns patternsOfJson? patterns
    followLinks := ← orDefault defaults.followLinks Json.bool? links }

def ofJson? : Json → Option Settings
  | .object members => do
    let found ← Json.known?
      ["buffer_capacity", "stop_poll_interval_ms", "exclude_patterns", "follow_symlinks"] members
    ofValues? (found.lookup "buffer_capacity") (found.lookup "stop_poll_interval_ms")
      (found.lookup "exclude_patterns") (found.lookup "follow_symlinks")
  | .array items =>
    if items.length ≤ 4 then ofValues? items[0]? items[1]? items[2]? items[3]? else none
  | _ => none

end Settings

namespace Snapshot

def itemJson? (item : Item) : Option (String × Json) := do
  some (← item.key.text?, ← item.entry.toJson?)

def toJson? (s : Snapshot) : Option Json := do
  let root ← s.root.toJson?
  let items ← s.items.mapM itemJson?
  some (.record [("root", root), ("entries", .record items)])

def absorbJson? (s : Snapshot) : List (Option String × Json) → Option Snapshot
  | [] => some s
  | (some key, v) :: rest =>
    match Entry.ofJson? v with
    | some e => absorbJson? (s.insertAt (.ofString key) e) rest
    | none => none
  | (none, _) :: _ => none

def ofValues? (root items : Json) : Option Snapshot := do
  let root ← Path.ofJson? root
  match items with
  | .object members => absorbJson? (.empty root) members
  | _ => none

-- Entries stand under the keys they are given, be they their paths or not.
def ofJson? : Json → Option Snapshot
  | .object members => do
    let found ← Json.known? ["root", "entries"] members
    ofValues? (← found.lookup "root") (← found.lookup "entries")
  | .array [root, items] => ofValues? root items
  | _ => none

end Snapshot

end DirWatch
