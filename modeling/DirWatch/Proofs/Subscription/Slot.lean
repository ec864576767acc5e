import DirWatch.Subscription
import Mathlib.Data.List.Basic

namespace DirWatch

def Status.isAborted : Status → Bool
  | .aborted _ => true
  | _ => false

theorem Status.aborted_or_other (status : Status) : (∃ b, status = .aborted b) ∨ status.isAborted = false := by
  cases status with
  | aborted b => exact .inl ⟨b, rfl⟩
  | _ => exact .inr rfl

namespace Slot

variable {s : Slot} {x : Signal} {b : Buffer} {rs : List Record} {status : Option Status}

-- What can be asked of a subscription.
inductive Call
  | signal (s : Signal)
  | arm (buffer : Buffer)
  | cancel
deriving DecidableEq, Repr

def Call.records : Call → List Record
  | .signal (.deliver rs) => rs
  | _ => []

-- A buffer can be lent only while no read is pending. A cancelled subscription does not take it.
def call? (s : Slot) : Call → Option (Slot × Option Status)
  | .signal x => some (s.receive x)
  | .arm b =>
    if s.armed.isSome then none
    else match s.arm b with
      | .ok next => some next
      | .error _ => some (s, none)
  | .cancel => some s.cancel

def feed (s : Slot) : Call → Slot
  | .signal (.deliver rs) => s.enqueue rs
  | .signal .overflow => { s with overflowed := true, queue := [] }
  | .signal (.fail e) => { s with failure := s.failure.or (some e) }
  | .arm b => { s with armed := some b }
  | .cancel => s

theorem call?_cancelled {c : Call} {next : Slot × Option Status} (cancelled : s.cancelled = true)
    (taken : s.call? c = some next) : next = (s, none) := by
  cases c with
  | signal x => simpa [call?, receive, cancelled] using taken.symm
  | arm b => simpa [call?, arm, cancelled] using (Option.ite_none_left_eq_some.mp taken).2.symm
  | cancel => simpa [call?, Slot.cancel, cancelled] using taken.symm

theorem receive_live (live : s.cancelled = false) : s.receive x = (s.feed (.signal x)).complete := by
  cases x <;> simp [receive, feed, live]

theorem arm_live (live : s.cancelled = false) : s.arm b = .ok (s.feed (.arm b)).complete := by
  simp [arm, feed, live]

theorem cancel_live (live : s.cancelled = false) : s.cancel =
    ({ s with cancelled := true, queue := [], failure := none, armed := none }, some (.aborted s.armed)) := by
  simp [cancel, live]

-- How completing ends: with nothing, as no read is pending or nothing is to be reported, or with the
-- buffer on its way back.
inductive Completes (s : Slot) : Slot × Option Status → Prop
  | idle : s.armed = none → Completes s (s, none)
  | waits {b : Buffer} : s.armed = some b → s.overflowed = false → s.queue = [] → s.failure = none →
      Completes s (s, none)
  | overflow {b : Buffer} : s.armed = some b → s.overflowed = true →
      Completes s ({ s with armed := none, overflowed := false, queue := [] }, some (.overflow b))
  | notifications {b : Buffer} : s.armed = some b → s.overflowed = false → s.queue ≠ [] →
      Completes s ({ s with armed := none, queue := [] }, some (.notifications ⟨b.records ++ s.queue⟩))
  | failed {b : Buffer} {e : MonitorError} : s.armed = some b → s.overflowed = false → s.queue = [] →
      s.failure = some e → Completes s ({ s with armed := none, failure := none }, some (.failed b e))

theorem completes (live : s.cancelled = false) : Completes s s.complete := by
  obtain ⟨capacity, queue, overflowed, failure, armed, cancelled⟩ := s
  obtain rfl : cancelled = false := live
  cases armed with
  | none => exact .idle rfl
  | some b =>
    cases overflowed with
    | true => exact .overflow rfl rfl
    | false =>
      cases queue with
      | cons r rest => exact .notifications rfl rfl (List.cons_ne_nil r rest)
      | nil =>
        cases failure with
        | none => exact .waits rfl rfl rfl rfl
        | some e => exact .failed rfl rfl rfl rfl

theorem enqueue_cons {r : Record} (open_ : s.overflowed = false) : s.enqueue (r :: rs) =
    if s.capacity ≤ s.queue.length then { s with overflowed := true, queue := [] }
    else { s with queue := s.queue ++ [r] }.enqueue rs := by
  simp [enqueue, open_]

theorem enqueue_room (open_ : s.overflowed = false) (room : s.queue.length + rs.length ≤ s.capacity) :
    s.enqueue rs = { s with queue := s.queue ++ rs } := by
  induction rs generalizing s with
  | nil => simp [enqueue]
  | cons r rest ih =>
    rw [List.length_cons] at room
    have later := @ih { s with queue := s.queue ++ [r] } open_ (by simp; omega)
    rw [enqueue_cons open_, if_neg (by omega), later]
    simp

theorem enqueue_full (open_ : s.overflowed = false) (bounded : s.queue.length ≤ s.capacity)
    (full : s.capacity < s.queue.length + rs.length) :
    s.enqueue rs = { s with overflowed := true, queue := [] } := by
  induction rs generalizing s with
  | nil =>
    rw [List.length_nil] at full
    omega
  | cons r rest ih =>
    rw [List.length_cons] at full
    rw [enqueue_cons open_]
    split
    · rfl
    · exact @ih { s with queue := s.queue ++ [r] } open_ (by simp; omega) (by simp; omega)

theorem enqueue_lossy (lossy : s.overflowed = true) : s.enqueue rs = s := by
  cases rs <;> simp [enqueue, lossy]

theorem enqueue_frame : (s.enqueue rs).armed = s.armed ∧ (s.enqueue rs).cancelled = s.cancelled := by
  induction rs generalizing s with
  | nil => exact ⟨rfl, rfl⟩
  | cons r rest ih =>
    unfold enqueue
    split
    · exact ⟨rfl, rfl⟩
    · split
      · exact ⟨rfl, rfl⟩
      · exact ih

theorem feed_signal : (s.feed (.signal x)).armed = s.armed ∧ (s.feed (.signal x)).cancelled = s.cancelled := by
  cases x with
  | deliver rs => exact enqueue_frame
  | overflow => exact ⟨rfl, rfl⟩
  | fail e => exact ⟨rfl, rfl⟩

-- What every subscription keeps: the queue has its limit and is empty once records were lost; while a
-- read is pending there is nothing to report; and in the end nothing is left.
structure Sound (s : Slot) : Prop where
  bounded : s.queue.length ≤ s.capacity
  lossy : s.overflowed = true → s.queue = []
  pending : s.armed.isSome = true → s.queue = [] ∧ s.overflowed = false ∧ s.failure = none
  ended : s.cancelled = true → s.queue = [] ∧ s.failure = none ∧ s.armed = none

theorem sound_fresh (capacity : Nat) : (fresh capacity).Sound := by
  refine ⟨Nat.zero_le _, fun _ => rfl, fun pending => ?_, fun ended => ?_⟩
  · cases pending
  · cases ended

-- What is fed keeps the queue within its limit: either all that comes is kept behind what was waiting,
-- or all of it is lost.
structure Fed (s : Slot) (c : Call) (t : Slot) : Prop where
  capacity : t.capacity = s.capacity
  cancelled : t.cancelled = s.cancelled
  bounded : t.queue.length ≤ t.capacity
  lossy : t.overflowed = true → t.queue = []
  kept : t.overflowed = false → s.overflowed = false ∧ t.queue = s.queue ++ c.records

theorem Sound.fed (sound : s.Sound) (c : Call) : Fed s c (s.feed c) := by
  obtain ⟨bounded, lossy, _, _⟩ := sound
  have same : s.queue = s.queue ++ [] := (List.append_nil _).symm
  cases c with
  | arm b => exact ⟨rfl, rfl, bounded, lossy, fun open_ => ⟨open_, same⟩⟩
  | cancel => exact ⟨rfl, rfl, bounded, lossy, fun open_ => ⟨open_, same⟩⟩
  | signal x =>
    cases x with
    | overflow => exact ⟨rfl, rfl, Nat.zero_le _, fun _ => rfl, fun open_ => absurd open_ (by simp [feed])⟩
    | fail e => exact ⟨rfl, rfl, bounded, lossy, fun open_ => ⟨open_, same⟩⟩
    | deliver rs =>
      show Fed s _ (s.enqueue rs)
      cases lost : s.overflowed with
      | true =>
        rw [enqueue_lossy lost]
        exact ⟨rfl, rfl, bounded, lossy, fun open_ => absurd lost (by simp [open_])⟩
      | false =>
        by_cases room : s.queue.length + rs.length ≤ s.capacity
        · rw [enqueue_room lost room]
          refine ⟨rfl, rfl, by simpa using room, fun gone => ?_, fun _ => ⟨lost, rfl⟩⟩
          rw [show s.overflowed = true from gone] at lost
          cases lost
        · rw [enqueue_full lost bounded (by omega)]
          refine ⟨rfl, rfl, Nat.zero_le _, fun _ => rfl, fun open_ => ?_⟩
          cases open_

-- What a call comes to: nothing is heard any more, the subscription is cancelled, or what was fed is completed.
inductive Called (s : Slot) (c : Call) : Slot × Option Status → Prop
  | deaf : s.cancelled = true → Called s c (s, none)
  | ends : s.cancelled = false → c = .cancel → Called s c
      ({ s with cancelled := true, queue := [], failure := none, armed := none }, some (.aborted s.armed))
  | heard {next : Slot × Option Status} : s.cancelled = false → c ≠ .cancel → Completes (s.feed c) next →
      Called s c next

theorem Sound.called {c : Call} {next : Slot × Option Status} (sound : s.Sound)
    (taken : s.call? c = some next) : Called s c next := by
  cases cancelled : s.cancelled with
  | true => exact call?_cancelled cancelled taken ▸ .deaf cancelled
  | false =>
    have fed : (s.feed c).cancelled = false := (sound.fed c).cancelled.trans cancelled
    cases c with
    | signal x =>
      obtain rfl : s.receive x = next := Option.some.inj taken
      rw [receive_live cancelled]
      exact .heard cancelled (by simp) (completes fed)
    | arm b =>
      simp only [call?, arm_live cancelled, Option.ite_none_left_eq_some, Option.some.injEq] at taken
      exact taken.2 ▸ .heard cancelled (by simp) (completes fed)
    | cancel =>
      obtain rfl : s.cancel = next := Option.some.inj taken
      rw [cancel_live cancelled]
      exact .ends cancelled rfl

theorem Sound.next {c : Call} {t : Slot} (sound : s.Sound) (called : Called s c (t, status)) : t.Sound := by
  cases called with
  | deaf => exact sound
  | ends => exact ⟨Nat.zero_le _, fun _ => rfl, nofun, fun _ => ⟨rfl, rfl, rfl⟩⟩
  | heard live _ completes =>
    have fed := sound.fed c
    have still : (s.feed c).cancelled ≠ true := by simp [fed.cancelled, live]
    cases completes with
    | idle idle =>
      refine ⟨fed.bounded, fed.lossy, fun pending => ?_, fun ended => absurd ended still⟩
      rw [idle] at pending
      cases pending
    | waits _ open_ empty none =>
      exact ⟨fed.bounded, fed.lossy, fun _ => ⟨empty, open_, none⟩, fun ended => absurd ended still⟩
    | overflow =>
      exact ⟨Nat.zero_le _, fun _ => rfl, nofun, fun ended => absurd ended still⟩
    | notifications =>
      exact ⟨Nat.zero_le _, fun _ => rfl, nofun, fun ended => absurd ended still⟩
    | failed =>
      exact ⟨fed.bounded, fed.lossy, nofun, fun ended => absurd ended still⟩

end Slot

end DirWatch
