import DirWatch.Subscription

namespace DirWatch

-- `receiving` is false once nobody reads completions any more; they are thrown away from then on.
structure Exchange where
  slots : List (Handle × Slot)
  completions : List Completion
  receiving : Bool
  requests : Nat
  closes : Nat
deriving DecidableEq, Repr

namespace Exchange

def empty : Exchange := ⟨[], [], true, 0, 0⟩

def slot? (x : Exchange) (h : Handle) : Option Slot := x.slots.lookup h

def setSlot (x : Exchange) (h : Handle) (s : Slot) : Exchange :=
  { x with slots := x.slots.map fun (k, old) => (k, if k = h then s else old) }

def send (x : Exchange) (h : Handle) : Option Status → Exchange
  | some status => if x.receiving then { x with completions := x.completions ++ [⟨h, status⟩] } else x
  | none => x

def signal (x : Exchange) (h : Handle) (s : Signal) : Exchange :=
  match x.slot? h with
  | some slot =>
    let (slot, status) := slot.receive s
    (x.setSlot h slot).send h status
  | none => x

def isCancelled (x : Exchange) (h : Handle) : Option Bool := (x.slot? h).map (·.cancelled)

def arm (x : Exchange) (h : Handle) (b : Buffer) : Exchange × Except MonitorError Unit :=
  match x.slot? h with
  | some slot =>
    match slot.arm b with
    | .ok (slot, status) => ((x.setSlot h slot).send h status, .ok ())
    | .error e => (x, .error e)
  | none => (x, .error .cancelled)

def cancel (x : Exchange) (h : Handle) : Exchange :=
  match x.slot? h with
  | some slot =>
    let (slot, status) := slot.cancel
    let closes := if status.isSome then x.closes + 1 else x.closes
    { x.setSlot h slot with closes := closes }.send h status
  | none => x

-- Opens a subscription. A handle that was in use is taken over: the old subscription is cancelled
-- as soon as the new one is open.
def subscribe (x : Exchange) (h : Handle) (capacity : Nat) (refusal : Option MonitorError)
    (signals : List Signal) : Exchange × Except MonitorError Unit :=
  match refusal with
  | some e => (x, .error e)
  | none =>
    let slot := signals.foldl (fun slot s => (slot.receive s).1) (Slot.fresh capacity)
    let x := x.cancel h
    ({ x with slots := (h, slot) :: x.slots.filter (·.1 != h), requests := x.requests + 1 }, .ok ())

def closeReceiver (x : Exchange) : Exchange := { x with completions := [], receiving := false }

def receive (x : Exchange) : List Completion × Exchange := (x.completions, { x with completions := [] })

end Exchange

end DirWatch
