import DirWatch.Error.Errno
import DirWatch.Path.Basic
import DirWatch.Text.Quoted

namespace DirWatch

-- Failures that come without an error number of the system.
inductive FaultKind
  | notFound
  | permissionDenied
  | alreadyExists
  | notADirectory
  | invalidInput
  | timedOut
  | unexpectedEof
  | interrupted
deriving DecidableEq, Repr

def FaultKind.message : FaultKind → String
  | notFound => "entity not found"
  | permissionDenied => "permission denied"
  | alreadyExists => "entity already exists"
  | notADirectory => "not a directory"
  | invalidInput => "invalid input parameter"
  | timedOut => "timed out"
  | unexpectedEof => "unexpected end of file"
  | interrupted => "operation interrupted"

inductive Fault
  | os (number : Nat)
  | described (text : String)
  | plain (kind : FaultKind)
deriving DecidableEq, Repr

namespace Fault

def message : Fault → String
  | os number => Errno.text number ++ " (os error " ++ toString number ++ ")"
  | described text => text
  | plain kind => kind.message

def isNotFound : Fault → Bool
  | os number => number == Errno.missing
  | plain kind => kind == .notFound
  | described _ => false

def isDenied : Fault → Bool
  | os number => number == Errno.notPermitted || number == Errno.accessDenied
  | plain kind => kind == .permissionDenied
  | described _ => false

end Fault

inductive NativeCause
  | general (text : String)
  | pathMissing
  | watchMissing
  | watchLimit
  | fault (f : Fault)
deriving DecidableEq, Repr

structure NativeError where
  cause : NativeCause
  paths : List Path
deriving DecidableEq, Repr

namespace NativeError

def ofWatchFault (f : Fault) (paths : List Path) : NativeError :=
  ⟨if f.isNotFound then .pathMissing else .fault f, paths⟩

def causeMessage : NativeCause → String
  | .general text => text
  | .pathMissing => "No path was found."
  | .watchMissing => "No watch was found."
  | .watchLimit => "OS file watch limit reached."
  | .fault f => f.message

def message (e : NativeError) : String :=
  match e.paths with
  | [] => causeMessage e.cause
  | paths =>
    let shown := paths.map fun p => String.ofList (Text.quoted p.bytes)
    causeMessage e.cause ++ " about [" ++ String.intercalate ", " shown ++ "]"

end NativeError

inductive MonitorError
  | directoryNotFound (shown : String)
  | notADirectory (shown : String)
  | permissionDenied (shown : String)
  | scan (path : Path) (fault : Fault)
  | rootRemoved (shown : String)
  | stopped
  | stopFromMonitorLoop
  | cancelled
  | native (e : NativeError)
  | io (fault : Fault)
  | config (text : String)
deriving DecidableEq, Repr

namespace MonitorError

def message : MonitorError → String
  | directoryNotFound shown => "directory not found: " ++ shown
  | notADirectory shown => "not a directory: " ++ shown
  | permissionDenied shown => "permission denied: " ++ shown
  | scan path fault => "failed to scan " ++ path.display ++ ": " ++ fault.message
  | rootRemoved shown => "watched directory was removed: " ++ shown
  | stopped => "file monitor is stopped"
  | stopFromMonitorLoop => "stop() cannot be called from the monitor loop"
  | cancelled => "subscription cancelled"
  | native e => "notify error: " ++ e.message
  | io fault => "io error: " ++ fault.message
  | config text => "configuration error: " ++ text

def cause? : MonitorError → Option String
  | scan _ fault => some fault.message
  | native e => some e.message
  | io fault => some fault.message
  | _ => none

def ofRootFault (root : Path) (fault : Fault) : MonitorError :=
  if fault.isNotFound then directoryNotFound root.display
  else if fault.isDenied then permissionDenied root.display
  else scan root fault

end MonitorError

end DirWatch
