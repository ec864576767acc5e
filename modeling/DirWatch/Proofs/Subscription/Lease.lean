import DirWatch.Proofs.Subscription.Slot

namespace DirWatch

def Status.returns (status : Status) : Bool := status.buffer?.isSome

namespace Slot

def takes (s : Slot) : Call → Bool
  | .arm b => match s.arm b with
    | .ok _ => true
    | .error _ => false
  | _ => false

def dropped (s : Slot) : Slot × Option Status := if s.cancelled then (s, none) else s.cancel

-- A subscription that is over: it holds nothing, hears nothing and takes nothing.
structure Over (s : Slot) : Prop where
  cancelled : s.cancelled = true
  queue : s.queue = []
  failure : s.failure = none
  armed : s.armed = none
  deaf : ∀ signal, s.receive signal = (s, none)
  refuses : ∀ buffer, s.arm buffer = .error .cancelled
  once : s.cancel = (s, none)

variable {s : Slot} {c : Call} {next : Slot × Option Status}

theorem Sound.closed (sound : s.Sound) (cancelled : s.cancelled = true) : s.Over := by
  obtain ⟨queue, failure, armed⟩ := sound.ended cancelled
  refine ⟨cancelled, queue, failure, armed, fun signal => ?_, fun buffer => ?_, ?_⟩
  · simp [receive, cancelled]
  · simp [arm, cancelled]
  · simp [cancel, cancelled]

theorem dropped_eq : s.dropped = s.cancel := by
  unfold dropped
  split
  · rename_i cancelled
    simp [cancel, cancelled]
  · rfl

theorem takes_cancelled (cancelled : s.cancelled = true) : s.takes c = false := by
  cases c <;> simp [takes, arm, cancelled]

theorem armed_feed (live : s.cancelled = false) (taken : s.call? c = some next) (heard : c ≠ .cancel) :
    (s.feed c).armed.isSome.toNat = s.armed.isSome.toNat + (s.takes c).toNat := by
  cases c with
  | signal x =>
    rw [feed_signal.1]
    rfl
  | arm b =>
    have idle : s.armed.isSome = false := by
      simpa using (Option.ite_none_left_eq_some.mp taken).1
    have lent : s.takes (.arm b) = true := by simp [takes, arm_live live]
    rw [idle, lent]
    rfl
  | cancel => exact absurd rfl heard

theorem Completes.returns (completes : Completes s next) :
    s.armed.isSome.toNat = next.2.toList.countP Status.returns + next.1.armed.isSome.toNat := by
  cases completes with
  | idle idle => simp [idle]
  | waits armed => simp [armed]
  | overflow armed => simp [armed, Status.returns, Status.buffer?]
  | notifications armed => simp [armed, Status.returns, Status.buffer?]
  | failed armed => simp [armed, Status.returns, Status.buffer?]

theorem Completes.goes_on (completes : Completes s next) :
    next.1.cancelled = s.cancelled ∧ ∀ status ∈ next.2.toList, status.isAborted = false := by
  cases completes <;> simp [Status.isAborted]

end Slot

-- What can happen to a subscription.
inductive Use
  | call (c : Slot.Call)
  | drop
deriving DecidableEq, Repr

namespace Use

def asks : Use → Slot.Call
  | .call c => c
  | .drop => .cancel

def ends (u : Use) : Bool := u.asks == .cancel

-- Only a source still reaches a subscription that nobody holds.
def bySource : Use → Bool
  | .call (.signal _) => true
  | _ => false

end Use

-- A subscription, the completions so far, the number of buffers it has taken, and whether anyone holds it.
structure Lease where
  slot : Slot
  emitted : List Status
  taken : Nat
  held : Bool
deriving DecidableEq, Repr

namespace Lease

open Slot (Sound Over Called)

variable {capacity : Nat} {l m next : Lease} {u : Use} {uses : List Use}

def start (capacity : Nat) : Lease := ⟨.fresh capacity, [], 0, true⟩

def use? (l : Lease) (u : Use) : Option Lease :=
  if l.held || u.bySource then
    match u with
    | .call c => (l.slot.call? c).map fun (slot, status) =>
        ⟨slot, l.emitted ++ status.toList, l.taken + (l.slot.takes c).toNat, l.held⟩
    | .drop =>
      let (slot, status) := l.slot.dropped
      some ⟨slot, l.emitted ++ status.toList, l.taken, false⟩
  else none

def run (l : Lease) : List Use → Option Lease
  | [] => some l
  | u :: rest => (l.use? u).bind (·.run rest)

theorem called_of_use? (used : l.use? u = some next) : ∃ status,
    l.slot.call? u.asks = some (next.slot, status) ∧ next.emitted = l.emitted ++ status.toList ∧
      next.taken = l.taken + (l.slot.takes u.asks).toNat := by
  unfold use? at used
  split at used
  · cases u with
    | call c =>
      obtain ⟨⟨slot, status⟩, called, rfl⟩ := Option.map_eq_some_iff.mp used
      exact ⟨status, called, rfl, rfl⟩
    | drop =>
      rw [Slot.dropped_eq] at used
      cases Option.some.inj used
      exact ⟨_, rfl, rfl, rfl⟩
  · cases used

-- What holds at every moment: the buffers add up, and there is no last completion before the end.
structure Fair (l : Lease) : Prop where
  sound : l.slot.Sound
  balanced : l.taken = l.emitted.countP Status.returns + l.slot.armed.isSome.toNat
  goes_on : l.slot.cancelled = false → ∀ status ∈ l.emitted, status.isAborted = false

theorem fair_start (capacity : Nat) : (start capacity).Fair :=
  ⟨Slot.sound_fresh capacity, rfl, fun _ => nofun⟩

theorem Fair.use? (fair : l.Fair) (live : l.slot.cancelled = false) (used : l.use? u = some next) : next.Fair ∧
    if u.ends then next.slot.cancelled = true ∧ next.emitted = l.emitted ++ [.aborted l.slot.armed]
    else next.slot.cancelled = false := by
  obtain ⟨slot, emitted, taken, held⟩ := next
  obtain ⟨status, asked, rfl, rfl⟩ := called_of_use? used
  have called : Called l.slot u.asks (slot, status) := fair.sound.called asked
  have sound : slot.Sound := fair.sound.next called
  have balanced := fair.balanced
  cases called with
  | deaf cancelled => exact absurd cancelled (by simp [live])
  | ends _ same =>
    have ends : u.ends = true := beq_iff_eq.mpr same
    refine ⟨⟨sound, ?_, nofun⟩, ?_⟩
    · -- a buffer that was pending comes back with the last completion
      rw [same]
      cases armed : l.slot.armed <;>
        simp [armed, balanced, List.countP_append, Status.returns, Status.buffer?, Slot.takes]
    · rw [if_pos ends]
      exact ⟨rfl, rfl⟩
  | heard _ other completes =>
    have ends : u.ends ≠ true := fun ends => other (beq_iff_eq.mp ends)
    have armed := Slot.armed_feed live asked other
    have returned := completes.returns
    obtain ⟨still, plain⟩ := completes.goes_on
    have open_ : slot.cancelled = false := still.trans ((fair.sound.fed u.asks).cancelled.trans live)
    refine ⟨⟨sound, ?_, fun _ status listed => ?_⟩, ?_⟩
    · simp only [List.countP_append] at returned ⊢
      omega
    · rcases List.mem_append.mp listed with before | now
      · exact fair.goes_on live status before
      · exact plain status now
    · rw [if_neg ends]
      exact open_

theorem closed_use? (closed : l.slot.cancelled = true) (used : l.use? u = some next) :
    next.slot = l.slot ∧ next.emitted = l.emitted ∧ next.taken = l.taken := by
  obtain ⟨status, asked, emitted, taken⟩ := called_of_use? used
  obtain ⟨slot, rfl⟩ := Prod.mk.inj (Slot.call?_cancelled closed asked)
  rw [Slot.takes_cancelled closed] at taken
  exact ⟨slot, by simpa using emitted, taken⟩

theorem closed_run (closed : m.slot.cancelled = true) (ran : m.run uses = some l) :
    l.slot = m.slot ∧ l.emitted = m.emitted ∧ l.taken = m.taken := by
  induction uses generalizing m with
  | nil =>
    cases ran
    exact ⟨rfl, rfl, rfl⟩
  | cons u rest ih =>
    obtain ⟨next, used, later⟩ := Option.bind_eq_some_iff.mp ran
    obtain ⟨slot, emitted, taken⟩ := closed_use? closed used
    obtain ⟨last, all, count⟩ := ih (slot ▸ closed) later
    exact ⟨last.trans slot, all.trans emitted, count.trans taken⟩

-- A run up to the use that ends the subscription, and what comes of it.
structure Ended (first : Lease) (uses : List Use) (l : Lease) : Prop where
  split : ∃ before u after m, uses = before ++ u :: after ∧ (∀ v ∈ before, v.ends = false) ∧ u.ends = true ∧
    first.run before = some m ∧ (∀ status ∈ m.emitted, status.isAborted = false) ∧
    l.emitted = m.emitted ++ [.aborted m.slot.armed]
  closed : l.slot.Over

-- Induction on the uses: up to the first that ends the subscription it goes on, after that nothing happens.
theorem Fair.run (fair : m.Fair) (live : m.slot.cancelled = false) (ran : m.run uses = some l) :
    l.Fair ∧ if uses.any Use.ends then Ended m uses l else l.slot.cancelled = false := by
  induction uses generalizing m with
  | nil =>
    cases ran
    exact ⟨fair, live⟩
  | cons u rest ih =>
    obtain ⟨next, used, later⟩ := Option.bind_eq_some_iff.mp ran
    obtain ⟨kept, outcome⟩ := fair.use? live used
    rw [List.any_cons]
    cases ends : u.ends with
    | true =>
      rw [if_pos ends] at outcome
      obtain ⟨cancelled, emitted⟩ := outcome
      obtain ⟨slot, all, count⟩ := closed_run cancelled later
      refine ⟨⟨slot ▸ kept.sound, by rw [count, all, slot]; exact kept.balanced, ?_⟩, ?_⟩
      · rw [slot, cancelled]
        nofun
      · refine ⟨⟨[], u, rest, m, rfl, nofun, ends, rfl, fair.goes_on live, all.trans emitted⟩, ?_⟩
        exact slot ▸ kept.sound.closed cancelled
    | false =>
      rw [if_neg (by simp [ends])] at outcome
      obtain ⟨last, told⟩ := ih kept outcome later
      refine ⟨last, ?_⟩
      rw [Bool.false_or]
      split
      · rename_i ended
        rw [if_pos ended] at told
        obtain ⟨⟨before, v, after, at_, rfl, plain, here, reached, rest⟩, closed⟩ := told
        refine ⟨⟨u :: before, v, after, at_, rfl, ?_, here, ?_, rest⟩, closed⟩
        · simpa [ends] using plain
        · exact Option.bind_eq_some_iff.mpr ⟨next, used, reached⟩
      · rename_i open_
        rwa [if_neg open_] at told

-- There is a last completion exactly if the subscription was cancelled or dropped; it returns what was pending
-- then, and nothing follows it. At every moment each buffer that was taken has come back once or is pending.
theorem cancellation_is_final (ran : (start capacity).run uses = some l) :
    l.taken = l.emitted.countP Status.returns + l.slot.armed.isSome.toNat ∧
      l.emitted.countP Status.isAborted = (uses.any Use.ends).toNat ∧
      if uses.any Use.ends then Ended (start capacity) uses l else l.slot.cancelled = false := by
  obtain ⟨fair, outcome⟩ := (fair_start capacity).run rfl ran
  refine ⟨fair.balanced, ?_, outcome⟩
  have none {emitted : List Status} (plain : ∀ status ∈ emitted, status.isAborted = false) :
      emitted.countP Status.isAborted = 0 := List.countP_eq_zero.mpr (by simpa using plain)
  cases ended : uses.any Use.ends with
  | true =>
    rw [if_pos ended] at outcome
    obtain ⟨⟨_, _, _, m, _, _, _, _, plain, emitted⟩, _⟩ := outcome
    rw [emitted, List.countP_append, none plain]
    rfl
  | false =>
    rw [if_neg (by simp [ended])] at outcome
    exact none (fair.goes_on outcome)

namespace Sample

def handled : List Use :=
  [.call (.arm .empty), .call (.signal (.deliver [⟨.added, ⟨[97]⟩⟩])), .call (.arm .empty), .drop,
    .call (.signal .overflow)]

def outcome : Lease :=
  ⟨⟨1, [], false, none, none, true⟩, [.notifications ⟨[⟨.added, ⟨[97]⟩⟩]⟩, .aborted (some .empty)], 2, false⟩

end Sample

theorem cancellation_is_final_dropped : (start 1).run Sample.handled = some Sample.outcome ∧
    Sample.outcome.emitted.countP Status.isAborted = 1 ∧ Sample.outcome.slot.Over := by
  have ran : (start 1).run Sample.handled = some Sample.outcome := by decide
  obtain ⟨_, count, ended⟩ := cancellation_is_final ran
  exact ⟨ran, count, ended.closed⟩

end Lease

end DirWatch
