import DirWatch.Settings
import DirWatch.Toml.Reader

namespace DirWatch

namespace Toml

def toWord? : Toml → Option UInt64
  | .integer n => if 0 ≤ n && n < UInt64.size then some (.ofNat n.toNat) else none
  | _ => none

def toBool? : Toml → Option Bool
  | .bool b => some b
  | _ => none

def toText? : Toml → Option String
  | .string s => some s
  | _ => none

def toTexts? : Toml → Option (List String)
  | .array items => items.mapM toText?
  | _ => none

end Toml

namespace Settings

-- A value of the wrong kind is no value at all, not even the default.
def entry {α : Type} (entries : Toml.Entries) (k : String) (default : α) (read : Toml → Option α) :
    Option α :=
  match entries.lookup k with
  | some v => read v
  | none => some default

def ofToml? (entries : Toml.Entries) : Option Settings := do
  some {
    bufferCapacity := ← entry entries "buffer_capacity" defaults.bufferCapacity Toml.toWord?
    stopPollMillis := ← entry entries "stop_poll_interval_ms" defaults.stopPollMillis Toml.toWord?
    excludePatterns := ← entry entries "exclude_patterns" defaults.excludePatterns Toml.toTexts?
    followLinks := ← entry entries "follow_symlinks" defaults.followLinks Toml.toBool? }

inductive LoadError
  | unreadable (file : Path)
  | unparsable (file : Path)
  | faulty (error : MonitorError)
deriving DecidableEq, Repr

def LoadError.message : LoadError → String
  | unreadable file => "failed to read config " ++ file.display
  | unparsable file => "failed to parse config " ++ file.display
  | faulty error => error.message

def load (file : Path) (contents : Option Bytes) : Except LoadError Settings :=
  match contents.bind Utf8.decode? with
  | none => .error (.unreadable file)
  | some text =>
    match (Toml.read? text).bind ofToml? with
    | none => .error (.unparsable file)
    | some settings =>
      match settings.fault? with
      | some e => .error (.faulty e)
      | none => .ok settings

end Settings

end DirWatch
