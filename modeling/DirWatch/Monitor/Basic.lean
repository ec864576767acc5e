import DirWatch.Disk.Edit
import DirWatch.Reconcile
import DirWatch.Subscription

namespace DirWatch

-- What a watch reports. A registration is answered first, by one of the first two.
inductive Notice
  | registered (handle : Handle) (snapshot : Snapshot)
  | registrationFailed (handle : Handle) (error : MonitorError)
  | monitoringFailed (handle : Handle) (error : MonitorError)
  | changed (handle : Handle) (changes : List Change)
deriving DecidableEq, Repr

namespace Notice

inductive Occasion
  | registered
  | registrationError
  | monitoringError
  | changed
deriving DecidableEq, Repr

def Occasion.all : List Occasion := [registered, registrationError, monitoringError, changed]

def Occasion.label : Occasion → String
  | registered => "registered"
  | registrationError => "registration_error"
  | monitoringError => "monitoring_error"
  | changed => "changed"

def handle : Notice → Handle
  | registered h _ | registrationFailed h _ | monitoringFailed h _ | changed h _ => h

def occasion : Notice → Occasion
  | registered .. => .registered
  | registrationFailed .. => .registrationError
  | monitoringFailed .. => .monitoringError
  | changed .. => .changed

def isLast : Notice → Bool
  | registrationFailed .. | monitoringFailed .. => true
  | _ => false

end Notice

-- What the receiver of a notice may do before the loop goes on. Sources of notifications are numbered
-- in the order in which they were opened.
inductive Act
  | stop
  | unregister
  | countRequests
  | signal (source : Nat) (s : Signal)
  | askCancelled (source : Nat)
deriving DecidableEq, Repr

inductive Answer
  | done
  | refused (error : MonitorError)
  | count (n : Nat)
  | flag (b : Bool)
  | noSource
deriving DecidableEq, Repr

structure Reaction where
  occasion : Notice.Occasion
  act : Act
deriving DecidableEq, Repr

inductive Command
  | register (handle : Handle) (path : Path) (recursive : Bool) (reactions : List Reaction)
  | unregister (handle : Handle)
  | stop
deriving DecidableEq, Repr

-- `cancelling` until the last completion of the watch has been seen.
inductive WatchState
  | active
  | cancelling
deriving DecidableEq, Repr

structure Watch where
  handle : Handle
  recursive : Bool
  snapshot : Snapshot
  slot : Slot
  reactions : List Reaction
  state : WatchState
deriving DecidableEq, Repr

-- How the source of notifications answers when a root is to be watched: what it signals and what
-- happens on disk before it has answered, and whether it refuses.
structure Opening where
  refusal : Option MonitorError
  signals : List Signal
  edits : List Edit
deriving DecidableEq, Repr

def Opening.plain : Opening := ⟨none, [], []⟩

abbrev Backend := Path → Bool → Opening

-- `requests` counts the watches that are not yet released, `closes` the sources that were closed,
-- `sources` names the watch that each source was opened for.
structure Monitor where
  settings : Settings
  accepting : Bool
  running : Bool
  watches : List Watch
  sources : List Handle
  commands : List Command
  completions : List Completion
  requests : Nat
  closes : Nat
  notices : List Notice
  answers : List (Notice.Occasion × Answer)
deriving DecidableEq, Repr

namespace Monitor

def start (settings : Settings) : Monitor := ⟨settings, true, true, [], [], [], [], 0, 0, [], []⟩

def watch? (m : Monitor) (h : Handle) : Option Watch := m.watches.find? (·.handle == h)

def isActive (m : Monitor) (h : Handle) : Bool :=
  match m.watch? h with
  | some w => w.state == .active
  | none => false

def update (m : Monitor) (h : Handle) (f : Watch → Watch) : Monitor :=
  { m with watches := m.watches.map fun w => if w.handle = h then f w else w }

def send (m : Monitor) (h : Handle) : Option Status → Monitor
  | some status => { m with completions := m.completions ++ [⟨h, status⟩] }
  | none => m

def setSlot (m : Monitor) (h : Handle) (slot : Slot) : Monitor := m.update h ({ · with slot := slot })

def setSnapshot (m : Monitor) (h : Handle) (s : Snapshot) : Monitor :=
  m.update h ({ · with snapshot := s })

-- A signal of the source that feeds the watch `h`. A watch that was released hears nothing.
def signal (m : Monitor) (h : Handle) (s : Signal) : Monitor :=
  match m.watch? h with
  | some w =>
    let (slot, status) := w.slot.receive s
    (m.setSlot h slot).send h status
  | none => m

def isCancelled (m : Monitor) (h : Handle) : Bool :=
  match m.watch? h with
  | some w => w.slot.cancelled
  | none => true

def post (m : Monitor) (c : Command) : Monitor := { m with commands := m.commands ++ [c] }

def unregister (m : Monitor) (h : Handle) : Except MonitorError Monitor :=
  if m.running then .ok (m.post (.unregister h)) else .error .stopped

def perform (m : Monitor) (h : Handle) : Act → Monitor × Answer
  | .stop => (m, .refused .stopFromMonitorLoop)
  | .unregister =>
    match m.unregister h with
    | .ok m => (m, .done)
    | .error e => (m, .refused e)
  | .countRequests => (m, .count m.requests)
  | .signal source s =>
    match m.sources[source]? with
    | some fed => (m.signal fed s, .done)
    | none => (m, .noSource)
  | .askCancelled source =>
    match m.sources[source]? with
    | some fed => (m, .flag (m.isCancelled fed))
    | none => (m, .noSource)

def react (m : Monitor) (notice : Notice) : List Reaction → Monitor
  | [] => m
  | r :: rest =>
    if r.occasion = notice.occasion then
      let (m, answer) := m.perform notice.handle r.act
      react { m with answers := m.answers ++ [(r.occasion, answer)] } notice rest
    else react m notice rest

-- Reports a notice, and lets its receiver react.
def tell (m : Monitor) (reactions : List Reaction) (notice : Notice) : Monitor :=
  react { m with notices := m.notices ++ [notice] } notice reactions

def tellWatch (m : Monitor) (notice : Notice) : Monitor :=
  match m.watch? notice.handle with
  | some w => m.tell w.reactions notice
  | none => m

end Monitor

end DirWatch
