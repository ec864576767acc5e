import DirWatch.Monitor.Loop

namespace DirWatch

-- `opening` is how the source of notifications answers when a watch is opened.
structure Session where
  disk : Disk
  monitor : Monitor
  opening : Opening
  nextHandle : UInt64
  stopping : Bool
  held : Bool
deriving DecidableEq, Repr

namespace Session

-- Queues run empty long before; only reactions that feed each other could go on for ever.
def stepLimit : Nat := 1000000

def start (settings : Settings) (d : Disk) : Except MonitorError Session :=
  match settings.fault? with
  | some e => .error e
  | none => .ok ⟨d, .start settings, .plain, 1, false, false⟩

def settle (s : Session) : Session :=
  if s.held then s
  else
    let (monitor, disk) := Monitor.settle (fun _ _ => s.opening) stepLimit s.monitor s.disk
    { s with monitor, disk }

def apply (s : Session) (e : Edit) : Option Session := (s.disk.apply e).map ({ s with disk := · })

-- The outcome of a registration is reported later, by the first notice about the handle.
def register (s : Session) (path : Path) (recursive : Bool) (reactions : List Reaction) :
    Session × Except MonitorError Handle :=
  if s.stopping then (s, .error .stopped)
  else
    let h : Handle := ⟨s.nextHandle⟩
    ({ s with
      nextHandle := s.nextHandle + 1
      monitor := s.monitor.post (.register h path recursive reactions) }.settle, .ok h)

def unregister (s : Session) (h : Handle) : Session × Except MonitorError Unit :=
  match s.monitor.unregister h with
  | .ok monitor => ({ s with monitor }.settle, .ok ())
  | .error e => (s, .error e)

def signal (s : Session) (h : Handle) (sig : Signal) : Session :=
  { s with monitor := s.monitor.signal h sig }.settle

def refreshAll (s : Session) : Session :=
  (s.monitor.watches.map Watch.handle).foldl (fun s h => s.signal h .overflow) s

def hold (s : Session) : Session := { s with held := true }

def release (s : Session) : Session := { s with held := false }.settle

-- Takes no more registrations, gives every watch up, and returns when all of them are released.
-- A second call does nothing.
def stop (s : Session) : Session :=
  let s := s.release
  if s.stopping then s
  else
    let s := { s with stopping := true, monitor := s.monitor.post .stop }.settle
    { s with monitor := s.monitor.drain }

def takeReports (s : Session) : List Notice × List (Notice.Occasion × Answer) × Session :=
  let monitor := { s.monitor with notices := [], answers := [] }
  (s.monitor.notices, s.monitor.answers, { s with monitor })

end Session

end DirWatch
