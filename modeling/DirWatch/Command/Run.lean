import DirWatch.Command.Arguments
import DirWatch.Command.Report
import DirWatch.Monitor.Session
import DirWatch.SettingsFile

namespace DirWatch

namespace Command

def versionLine : String := "codex-file-monitor 0.0.0"

def helpLines : List String := [
  "Watch directories and print file changes",
  "",
  "Usage: codex-file-monitor [OPTIONS] <PATH>...",
  "",
  "Arguments:",
  "  <PATH>...  Directories to watch",
  "",
  "Options:",
  "      --non-recursive  Only watch the direct children of each directory",
  "      --config <FILE>  TOML file with monitor settings",
  "      --json           Print one JSON object per line instead of text",
  "  -h, --help           Print help",
  "  -V, --version        Print version"]

inductive Level
  | info
  | warn
  | error
deriving DecidableEq, Repr

def Level.label : Level → String
  | info => "INFO"
  | warn => "WARN"
  | error => "ERROR"

structure Message where
  level : Level
  text : String
deriving DecidableEq, Repr

-- What is seen of the command. `live` counts the watches that have not ended; `broken` says that some
-- changes could not be printed, which ends everything.
structure Console where
  report : Report
  live : Nat
  broken : Bool
  messages : List Message
  output : List String
deriving DecidableEq, Repr

namespace Console

def start (report : Report) : Console := ⟨report, report.roots.length, false, [], []⟩

def tell (c : Console) (level : Level) (text : String) : Console :=
  { c with messages := c.messages ++ [⟨level, text⟩] }

def watching (root : String) (s : Snapshot) : String :=
  let directories := (s.entries.filter (·.isDirectory)).length
  "Watching " ++ root ++ " (" ++ toString s.size ++ " entries, " ++ toString directories ++ " directories)"

-- Takes a notice; once no watch is live, nothing is taken any more.
def take (c : Console) (notice : Notice) : Console :=
  if c.live = 0 || c.broken then c
  else
    let root := (c.report.rootOf notice.handle).display
    match notice with
    | .registered _ s => c.tell .info (watching root s)
    | .registrationFailed _ e =>
      { c with live := c.live - 1 }.tell .error ("Cannot watch " ++ root ++ ": " ++ e.message)
    | .monitoringFailed _ e =>
      { c with live := c.live - 1 }.tell .warn ("Stopped watching " ++ root ++ ": " ++ e.message)
    | .changed h changes =>
      match c.report.lines? h changes with
      | some lines => { c with output := c.output ++ lines }
      | none =>
        { c with output := c.output ++ Report.linesBefore h (c.report.rootOf h) changes, broken := true }

end Console

structure Result where
  code : Nat
  messages : List Message
  output : List String
  error : Option String
deriving DecidableEq, Repr

def registerAll (s : Session) (recursive : Bool) : List Path → Session × List (Handle × Path)
  | [] => (s, [])
  | path :: rest =>
    match s.register path recursive [] with
    | (s, .ok h) =>
      let (s, others) := registerAll s recursive rest
      (s, (h, path) :: others)
    | (s, .error _) => registerAll s recursive rest

-- Watches the paths on a disk that is edited when all of them are being watched.
def watch (s : Session) (a : Arguments) (later : List Edit) : Console :=
  let (s, roots) := registerAll s a.recursive a.paths
  let (first, _, s) := s.takeReports
  let console := first.foldl Console.take (.start ⟨a.json, roots⟩)
  let s := { s with disk := s.disk.applyAll later }.refreshAll
  s.monitor.notices.foldl Console.take console

def finished (c : Console) : Result := ⟨if c.broken then 101 else 0, c.messages, c.output, none⟩

def refused (text : String) : Result := ⟨1, [], [], some ("Error: " ++ text)⟩

def settingsFor (a : Arguments) (read : Path → Option Bytes) : Except Settings.LoadError Settings :=
  match a.config with
  | some file => Settings.load file (read file)
  | none => .ok .defaults

-- The whole run. `read` gives the contents of files, and `later` is what happens to the disk while the
-- command watches it.
def run (args : List String) (d : Disk) (read : Path → Option Bytes) (later : List Edit) : Result :=
  match Arguments.parse args with
  | .error .help => ⟨0, [], helpLines, none⟩
  | .error .version => ⟨0, [], [versionLine], none⟩
  | .error (.misuse _) => ⟨2, [], [], none⟩
  | .ok a =>
    match settingsFor a read with
    | .error e => refused e.message
    | .ok settings =>
      match Session.start settings d with
      | .error e => refused e.message
      | .ok s => finished (watch s a later)

end Command

end DirWatch
