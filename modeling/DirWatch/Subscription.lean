import DirWatch.Error.Basic
import DirWatch.Notification

namespace DirWatch

structure Handle where
  id : UInt64
deriving DecidableEq, Repr

def Handle.label (h : Handle) : String := "watch#" ++ toString h.id.toNat

structure Buffer where
  records : List Record
deriving DecidableEq, Repr

namespace Buffer

def empty : Buffer := ⟨[]⟩

def take (b : Buffer) : List Record × Buffer := (b.records, empty)

end Buffer

-- How a read ended. The buffer comes back; on cancellation only if it was lent at that time.
inductive Status
  | notifications (buffer : Buffer)
  | overflow (buffer : Buffer)
  | failed (buffer : Buffer) (error : MonitorError)
  | aborted (buffer : Option Buffer)
deriving DecidableEq, Repr

def Status.buffer? : Status → Option Buffer
  | .notifications b | .overflow b | .failed b _ => some b
  | .aborted b => b

structure Completion where
  handle : Handle
  status : Status
deriving DecidableEq, Repr

-- `overflowed` stands for records that were thrown away since the last completion.
structure Slot where
  capacity : Nat
  queue : List Record
  overflowed : Bool
  failure : Option MonitorError
  armed : Option Buffer
  cancelled : Bool
deriving DecidableEq, Repr

inductive Signal
  | deliver (records : List Record)
  | overflow
  | fail (error : MonitorError)
deriving DecidableEq, Repr

namespace Slot

def fresh (capacity : Nat) : Slot := ⟨capacity, [], false, none, none, false⟩

-- Completes the pending read if there is one and something to report: lost records first, then
-- records, then a failure.
def complete (s : Slot) : Slot × Option Status :=
  if s.cancelled then (s, none)
  else match s.armed with
    | none => (s, none)
    | some buffer =>
      if s.overflowed then
        ({ s with armed := none, overflowed := false, queue := [] }, some (.overflow buffer))
      else if !s.queue.isEmpty then
        ({ s with armed := none, queue := [] }, some (.notifications ⟨buffer.records ++ s.queue⟩))
      else match s.failure with
        | some error => ({ s with armed := none, failure := none }, some (.failed buffer error))
        | none => (s, none)

-- Puts records into the queue. The first one for which there is no room empties the queue instead,
-- and with the ones after it is lost.
def enqueue (s : Slot) : List Record → Slot
  | [] => s
  | r :: rest =>
    if s.overflowed then s
    else if s.capacity ≤ s.queue.length then { s with overflowed := true, queue := [] }
    else enqueue { s with queue := s.queue ++ [r] } rest

-- Takes a signal in. Of several failures waiting to be reported the first is kept.
def receive (s : Slot) (signal : Signal) : Slot × Option Status :=
  if s.cancelled then (s, none)
  else match signal with
    | .deliver records => (s.enqueue records).complete
    | .overflow => { s with overflowed := true, queue := [] }.complete
    | .fail error => { s with failure := s.failure.or (some error) }.complete

def arm (s : Slot) (buffer : Buffer) : Except MonitorError (Slot × Option Status) :=
  if s.cancelled then .error .cancelled else .ok { s with armed := some buffer }.complete

-- Ends the subscription. Only the first time there is a completion.
def cancel (s : Slot) : Slot × Option Status :=
  if s.cancelled then (s, none)
  else ({ s with cancelled := true, queue := [], failure := none, armed := none }, some (.aborted s.armed))

end Slot

end DirWatch
