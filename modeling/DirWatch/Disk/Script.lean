import DirWatch.Disk.Edit

namespace DirWatch

def Instant.epoch : Instant := ⟨0, 0, by decide⟩

def Disk.empty : Disk := ⟨.epoch, .done, Listing.ordered_done⟩

-- The edits before the first empty line and those after it.
structure Script where
  first : List Edit
  later : List Edit
  texts : List (Path × Bytes)
deriving DecidableEq, Repr

namespace Script

-- What a word stands for: a backslash lets it hold line ends and tabs, and itself.
def unescape : List Char → List Char
  | '\\' :: 'n' :: rest => '\n' :: unescape rest
  | '\\' :: 't' :: rest => '\t' :: unescape rest
  | '\\' :: c :: rest => c :: unescape rest
  | c :: rest => c :: unescape rest
  | [] => []

def text (word : String) : Bytes := Utf8.encode (String.ofList (unescape word.toList))

def edit? : List String → Option Edit
  | ["mkdir", path] => some (.makeDir ⟨text path⟩ .epoch)
  | ["file", path, size] => size.toNat?.map fun n => .makeFile ⟨text path⟩ (.ofNat n) .epoch
  | ["text", path, content] => some (.makeFile ⟨text path⟩ (.ofNat (text content).length) .epoch)
  | ["link", path, target] => some (.makeLink ⟨text path⟩ ⟨text target⟩ .epoch)
  | ["touch", path, time] => (Instant.read? time).map (.touch ⟨text path⟩)
  | ["rm", path] => some (.remove ⟨text path⟩)
  | ["mv", path, target] => some (.move ⟨text path⟩ ⟨text target⟩)
  | _ => none

def text? : List String → Option (Path × Bytes)
  | ["text", path, content] => some (⟨text path⟩, text content)
  | _ => none

def ofLines (lines : List String) : Script :=
  let (first, later) := lines.span (· != "")
  let words := first.map (·.splitOn "\t")
  ⟨words.filterMap edit?, later.filterMap fun line => edit? (line.splitOn "\t"), words.filterMap text?⟩

def read? (s : Script) (file : Path) : Option Bytes :=
  let path := (Path.ofPlace []).join file
  (s.texts.reverse.find? fun t => t.1.same path).map Prod.snd

end Script

end DirWatch
