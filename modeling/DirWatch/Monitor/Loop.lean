import DirWatch.Disk.Edit
import DirWatch.Monitor.Basic

namespace DirWatch.Monitor

-- Gives a watch up. Its last completion follows.
def cancel (m : Monitor) (h : Handle) : Monitor :=
  match m.watch? h with
  | some w =>
    if w.state = .active then
      let (slot, status) := w.slot.cancel
      let m := m.update h ({ · with slot := slot, state := .cancelling })
      { m with closes := m.closes + 1 }.send h status
    else m
  | none => m

def fail (m : Monitor) (h : Handle) (error : MonitorError) : Monitor :=
  if m.isActive h then (m.tellWatch (.monitoringFailed h error)).cancel h else m

def rootRemoved (m : Monitor) (h : Handle) : Monitor :=
  match m.watch? h with
  | some w => m.fail h (.rootRemoved w.snapshot.root.display)
  | none => m

def deliver (m : Monitor) (h : Handle) (outcome : Outcome) : Monitor :=
  let m := m.setSnapshot h outcome.snapshot
  if m.isActive h then
    let m := if outcome.changes.isEmpty then m else m.tellWatch (.changed h outcome.changes)
    if outcome.rootRemoved then m.rootRemoved h else m
  else m

-- Lends the buffer again before anything else is done, so that nothing that arrives meanwhile is lost.
def arm (m : Monitor) (h : Handle) (buffer : Buffer) : Monitor × Option MonitorError :=
  match m.watch? h with
  | some w =>
    match w.slot.arm buffer with
    | .ok (slot, status) => ((m.setSlot h slot).send h status, none)
    | .error e => (m, some e)
  | none => (m, none)

def failIf (m : Monitor) (h : Handle) : Option MonitorError → Monitor
  | some e => m.fail h e
  | none => m

def scopeOf (m : Monitor) (w : Watch) : Scope := m.settings.scope w.recursive

def release (m : Monitor) (h : Handle) : Monitor :=
  if (m.watch? h).isSome then
    { m with watches := m.watches.filter (·.handle != h), requests := m.requests - 1 }
  else m

def onNotifications (m : Monitor) (d : Disk) (w : Watch) (buffer : Buffer) : Monitor :=
  let (records, buffer) := buffer.take
  let (m, error) := m.arm w.handle buffer
  (m.deliver w.handle (Reconcile.batch d (m.scopeOf w) w.snapshot records)).failIf w.handle error

def onOverflow (m : Monitor) (d : Disk) (w : Watch) (buffer : Buffer) : Monitor :=
  let (m, error) := m.arm w.handle buffer
  let m := match Reconcile.rescan d (m.scopeOf w) w.snapshot with
    | .ok outcome => m.deliver w.handle outcome
    | .error e => m.fail w.handle e
  m.failIf w.handle error

-- A source often fails because the root is gone; then that is reported instead.
def onFailure (m : Monitor) (d : Disk) (w : Watch) (error : MonitorError) : Monitor :=
  let m :=
    if d.isDir w.snapshot.root then m
    else m.deliver w.handle (Reconcile.batch d (m.scopeOf w) w.snapshot [⟨.removed, .empty⟩])
  m.fail w.handle error

def onCompletion (m : Monitor) (d : Disk) (c : Completion) : Monitor :=
  match c.status, m.watch? c.handle with
  | .aborted _, _ => m.release c.handle
  | _, none => m
  | status, some w =>
    if w.state = .active then
      match status with
      | .notifications buffer => m.onNotifications d w buffer
      | .overflow buffer => m.onOverflow d w buffer
      | .failed _ error => m.onFailure d w error
      | .aborted _ => m
    else m

def refuse (m : Monitor) (h : Handle) (reactions : List Reaction) (error : MonitorError) : Monitor :=
  m.tell reactions (.registrationFailed h error)

-- Opens the watch on a directory of that canonical path and scans it. The first read is pending
-- before the scan begins.
def openWatch (m : Monitor) (d : Disk) (h : Handle) (root : Path) (recursive : Bool)
    (reactions : List Reaction) (signals : List Signal) : Monitor :=
  let slot := signals.foldl (fun slot s => (slot.receive s).1) (Slot.fresh m.settings.bufferCapacity.toNat)
  let w : Watch := ⟨h, recursive, .empty root, slot, reactions, .active⟩
  let m := { m with
    watches := m.watches ++ [w], sources := m.sources ++ [h], requests := m.requests + 1 }
  let (m, error) := m.arm h .empty
  match error, Snapshot.scan d (m.scopeOf w) root with
  | none, .ok snapshot => (m.setSnapshot h snapshot).tell reactions (.registered h snapshot)
  | none, .error e | some e, _ => (m.cancel h).refuse h reactions e

def register (m : Monitor) (d : Disk) (backend : Backend) (h : Handle) (path : Path) (recursive : Bool)
    (reactions : List Reaction) : Monitor × Disk :=
  if !m.accepting then (m.refuse h reactions .stopped, d)
  else match d.canonical path with
    | .error e => (m.refuse h reactions (.ofRootFault path e.fault), d)
    | .ok root =>
      if !d.isDir root then (m.refuse h reactions (.notADirectory root.display), d)
      else
        let opening := backend root recursive
        let d := d.applyAll opening.edits
        match opening.refusal with
        | some e => (m.refuse h reactions e, d)
        | none => (m.openWatch d h root recursive reactions opening.signals, d)

-- In the order of registration, one of the orders in which a table of watches may be gone through.
def cancelAll (m : Monitor) : Monitor := (m.watches.map Watch.handle).foldl cancel m

def onCommand (m : Monitor) (d : Disk) (backend : Backend) : Command → Monitor × Disk
  | .register h path recursive reactions => m.register d backend h path recursive reactions
  | .unregister h => (m.cancel h, d)
  | .stop => ({ m with accepting := false }.cancelAll, d)

-- Completions are served before commands.
def step (m : Monitor) (d : Disk) (backend : Backend) : Option (Monitor × Disk) :=
  match m.completions, m.commands with
  | c :: rest, _ => some ({ m with completions := rest }.onCompletion d c, d)
  | [], c :: rest => some ({ m with commands := rest }.onCommand d backend c)
  | [], [] => none

def settle (backend : Backend) : Nat → Monitor → Disk → Monitor × Disk
  | 0, m, d => (m, d)
  | limit + 1, m, d =>
    match m.step d backend with
    | some (m, d) => settle backend limit m d
    | none => (m, d)

def refuseQueued (m : Monitor) : List Command → Monitor
  | [] => m
  | .register h _ _ reactions :: rest => (m.refuse h reactions .stopped).refuseQueued rest
  | _ :: rest => m.refuseQueued rest

def releaseAborted (m : Monitor) : List Completion → Monitor
  | [] => m
  | c :: rest =>
    match c.status with
    | .aborted _ => (m.release c.handle).releaseAborted rest
    | _ => m.releaseAborted rest

-- The end of the loop: queued registrations are refused, every watch is given up and released.
def drain (m : Monitor) : Monitor :=
  let m := { m with running := false, commands := [] }.refuseQueued m.commands
  let m := m.cancelAll
  { m with completions := [] }.releaseAborted m.completions

end DirWatch.Monitor
