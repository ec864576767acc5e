import DirWatch.Error.Basic
import DirWatch.Text.Wildcard

namespace DirWatch

structure Settings where
  bufferCapacity : UInt64 := 4096
  stopPollMillis : UInt64 := 100
  excludePatterns : List String := []
  followLinks : Bool := false
deriving DecidableEq, Repr

namespace Settings

def defaults : Settings := {}

structure Span where
  seconds : Nat
  nanos : Nat
deriving DecidableEq, Repr

-- The longest interval that can be set stands for all longer ones; a span of less than a
-- millisecond counts as one, except none at all.
def Span.millis (d : Span) : UInt64 :=
  let whole := d.seconds * 1000 + d.nanos / 1000000
  if whole = 0 && d.nanos != 0 then 1 else UInt64.ofNat (min whole (UInt64.size - 1))

def withBufferCapacity (s : Settings) (n : UInt64) : Settings := { s with bufferCapacity := n }

def withStopPoll (s : Settings) (d : Span) : Settings := { s with stopPollMillis := d.millis }

def exclude (s : Settings) (pattern : String) : Settings :=
  { s with excludePatterns := s.excludePatterns ++ [pattern] }

def followingLinks (s : Settings) : Settings := { s with followLinks := true }

def stopPoll (s : Settings) : Span :=
  ⟨s.stopPollMillis.toNat / 1000, s.stopPollMillis.toNat % 1000 * 1000000⟩

-- What keeps a monitor from working; of two faults the capacity is told.
def fault? (s : Settings) : Option MonitorError :=
  if s.bufferCapacity = 0 then some (.config "buffer_capacity must be at least 1")
  else if s.stopPollMillis = 0 then some (.config "stop_poll_interval_ms must be at least 1")
  else none

end Settings

-- The compiled patterns of paths to leave alone.
structure Excludes where
  patterns : List (List Wildcard.Token)
deriving DecidableEq, Repr

namespace Excludes

def ofPatterns (patterns : List String) : Excludes := ⟨patterns.map Wildcard.compile⟩

-- The text that patterns are matched with: the components with a slash between each two.
def subject (path : Path) : List Char :=
  Utf8.lossy (Path.unsplit (path.components.map Component.bytes))

def excludes (e : Excludes) (path : Path) : Bool :=
  let text := subject path
  e.patterns.any (Wildcard.Matches · text)

end Excludes

-- What belongs to a snapshot: how deep it goes, which paths it leaves out, and whether it looks
-- behind links.
structure Scope where
  recursive : Bool
  excludes : Excludes
  followLinks : Bool
deriving DecidableEq, Repr

def Settings.scope (s : Settings) (recursive : Bool) : Scope :=
  ⟨recursive, .ofPatterns s.excludePatterns, s.followLinks⟩

end DirWatch
