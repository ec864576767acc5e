import DirWatch.Command.Run
import DirWatch.Disk.Script

namespace DirWatch.Main

partial def readLines (input : IO.FS.Stream) : IO (List String) := do
  let line ← input.getLine
  if line.isEmpty then return []
  return String.ofList (line.toList.takeWhile fun c => c != '\n' && c != '\r') :: (← readLines input)

-- The file system to be watched is told on standard input.
def run (args : List String) : IO UInt32 := do
  let script := Script.ofLines (← readLines (← IO.getStdin))
  let result := Command.run args (Disk.empty.applyAll script.first) script.read? script.later
  for m in result.messages do
    IO.eprintln (m.level.label ++ " " ++ m.text)
  for line in result.output do
    IO.println line
  match result.error with
  | some text => IO.eprintln text
  | none => pure ()
  return .ofNat result.code

end DirWatch.Main

def main (args : List String) : IO UInt32 := DirWatch.Main.run args
