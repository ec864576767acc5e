import DirWatch.Subscription.Exchange
import DirWatch.Proofs.Subscription.Slot
import Mathlib.Data.List.Induction

namespace DirWatch

namespace Slot

variable {s t : Slot} {x : Signal} {c : Call} {told : Option Status}
  {capacity : Nat} {early : List Signal}

-- There is something for the next read. Nothing is, once the subscription is cancelled: a loss that nobody was
-- told of before stays untold.
def Waiting (s : Slot) : Prop :=
  s.cancelled = false ∧ (s.overflowed = true ∨ s.queue ≠ [] ∨ s.failure ≠ none)

-- When a call completes something: a signal that brings anything wakes a pending read, a buffer comes back if
-- something waits for it, and the first cancellation says so.
def Tells (s : Slot) : Call → Prop
  | .signal x => s.armed.isSome = true ∧ x ≠ .deliver []
  | .arm _ => s.Waiting
  | .cancel => s.cancelled = false

def lent (s : Slot) : Call → Option Buffer
  | .arm b => if s.cancelled then none else some b
  | _ => s.armed

theorem Completes.told_iff (live : s.cancelled = false) (completes : Completes s (t, told)) :
    told.isSome = true ↔ s.armed.isSome = true ∧ s.Waiting := by
  cases completes with
  | idle idle => simp [idle]
  | waits _ open_ empty none => simp [Waiting, open_, empty, none]
  | overflow armed lost => simp [Waiting, live, armed, lost]
  | notifications armed _ some_ => simp [Waiting, live, armed, some_]
  | failed armed _ _ error => simp [Waiting, live, armed, error]

theorem Completes.armed (completes : Completes s (t, told)) :
    t.armed = if told.isSome then none else s.armed := by
  cases completes <;> rfl

theorem Completes.same_capacity (completes : Completes s (t, told)) : t.capacity = s.capacity := by
  cases completes <;> rfl

theorem waiting_feed (live : s.cancelled = false) (empty : s.queue = []) (open_ : s.overflowed = false)
    (none : s.failure = none) : (s.feed (.signal x)).Waiting ↔ x ≠ .deliver [] := by
  cases x with
  | overflow => simp [Waiting, feed, live]
  | fail e => simp [Waiting, feed, live, none]
  | deliver rs =>
    show (s.enqueue rs).Waiting ↔ _
    by_cases room : s.queue.length + rs.length ≤ s.capacity
    · rw [enqueue_room open_ room]
      simp [Waiting, live, empty, open_, none]
    · have some_ : rs ≠ [] := by
        rintro rfl
        simp [empty] at room
      rw [enqueue_full open_ (by simp [empty]) (by omega)]
      simp [Waiting, live, some_]

section Call

variable (sound : s.Sound) (taken : s.call? c = some (t, told))
include sound taken

theorem Sound.capacity_call? : t.capacity = s.capacity := by
  cases sound.called taken with
  | deaf => rfl
  | ends => rfl
  | heard _ _ completes => exact completes.same_capacity.trans (sound.fed c).capacity

theorem Sound.told_iff : told.isSome = true ↔ s.Tells c := by
  cases sound.called taken with
  | deaf cancelled =>
    have idle : s.armed = none := (sound.ended cancelled).2.2
    cases c <;> simp [Tells, Waiting, cancelled, idle]
  | ends live ending => simp [ending, Tells, live]
  | heard live other completes =>
    have brought := completes.told_iff ((sound.fed c).cancelled.trans live)
    cases c with
    | cancel => exact absurd rfl other
    | arm b => simpa [feed, Tells, Waiting] using brought
    | signal x =>
      rw [brought, feed_signal.1]
      refine and_congr_right fun pending => ?_
      obtain ⟨empty, open_, none⟩ := sound.pending pending
      exact waiting_feed live empty open_ none

theorem Sound.armed_call? : t.armed = if told.isSome then none else s.lent c := by
  cases sound.called taken with
  | deaf cancelled =>
    have idle : s.armed = none := (sound.ended cancelled).2.2
    cases c <;> simp [lent, cancelled, idle]
  | ends => rfl
  | heard live other completes =>
    rw [completes.armed]
    cases c with
    | cancel => exact absurd rfl other
    | arm b => simp [feed, lent, live]
    | signal x =>
      rw [feed_signal.1]
      rfl

end Call

theorem receive_idle (idle : s.armed = none) : (s.receive x).2 = none ∧ (s.receive x).1.armed = none := by
  cases cancelled : s.cancelled with
  | true => simp [receive, cancelled, idle]
  | false =>
    rw [receive_live cancelled]
    simp [complete, feed_signal, cancelled, idle]

def opened (capacity : Nat) (early : List Signal) : Slot :=
  early.foldl (fun slot s => (slot.receive s).1) (fresh capacity)

theorem opened_concat : opened capacity (early ++ [x]) = ((opened capacity early).receive x).1 := by
  simp [opened]

theorem armed_opened : (opened capacity early).armed = none := by
  induction early using List.reverseRecOn with
  | nil => rfl
  | append_singleton early x ih =>
    rw [opened_concat]
    exact (receive_idle ih).2

end Slot

namespace Exchange

open Slot (Call)

variable {x y : Exchange} {h k : Handle} {s t : Slot} {c : Call} {told : Option Status} {capacity : Nat}
  {early : List Signal}

theorem send_eq : x.send h told = { x with completions :=
    x.completions ++ if x.receiving then told.toList.map (Completion.mk h) else [] } := by
  obtain ⟨slots, completions, receiving, requests, closes⟩ := x
  cases told with
  | none => simp [send]
  | some status => cases receiving <;> simp [send]

theorem slot?_setSlot : (x.setSlot h t).slot? k = if k = h then (x.slot? k).map fun _ => t else x.slot? k := by
  unfold slot? setSlot
  induction x.slots with
  | nil => simp
  | cons entry rest ih =>
    obtain ⟨i, old⟩ := entry
    simp only [List.map_cons, List.lookup_cons]
    by_cases here : k = i
    · subst here
      by_cases same : k = h <;> simp [same]
    · rw [beq_false_of_ne here]
      exact ih

theorem lookup_filter_ne {slots : List (Handle × Slot)} (other : k ≠ h) :
    (slots.filter (·.1 != h)).lookup k = slots.lookup k := by
  induction slots with
  | nil => rfl
  | cons entry rest ih =>
    obtain ⟨i, old⟩ := entry
    by_cases gone : i = h
    · subst gone
      simp [List.lookup_cons, beq_false_of_ne other, ih]
    · simp [List.lookup_cons, gone, ih]

theorem map_filter_ne {slots : List (Handle × Slot)} :
    ((slots.filter (·.1 != h)).map fun (k, old) => (k, if k = h then t else old)) = slots.filter (·.1 != h) := by
  refine (List.map_congr_left fun entry listed => ?_).trans (List.map_id _)
  have other : entry.1 ≠ h := by simpa using (List.mem_filter.mp listed).2
  simp [other]

-- A call to the subscription behind a handle. A buffer is lent only while no read is pending.
def call? (x : Exchange) (h : Handle) : Call → Option Exchange
  | .signal signal => some (x.signal h signal)
  | .arm b => if (x.slot? h).any (·.armed.isSome) then none else some (x.arm h b).1
  | .cancel => some (x.cancel h)

-- What a call comes to. There is no subscription, it is cancelled and refuses the buffer, or it takes a step.
inductive Answered (x : Exchange) (h : Handle) (c : Call) : Exchange → Prop
  | absent : x.slot? h = none → Answered x h c x
  | refused {s : Slot} : x.slot? h = some s → s.call? c = some (s, none) → Answered x h c x
  | made {s t : Slot} {told : Option Status} (closes : Nat) : x.slot? h = some s →
      s.call? c = some (t, told) → Answered x h c ({ x.setSlot h t with closes := closes }.send h told)

theorem signal_eq {signal : Signal} (there : x.slot? h = some s) : x.signal h signal =
    (x.setSlot h (s.receive signal).1).send h (s.receive signal).2 := by
  simp [Exchange.signal, there]

theorem arm_eq {b : Buffer} (there : x.slot? h = some s) : x.arm h b =
    if s.cancelled then (x, .error .cancelled)
    else ((x.setSlot h (s.feed (.arm b)).complete.1).send h (s.feed (.arm b)).complete.2, .ok ()) := by
  cases cancelled : s.cancelled with
  | true => simp [arm, there, Slot.arm, cancelled]
  | false => simp [arm, there, Slot.arm_live cancelled]

theorem cancel_eq (there : x.slot? h = some s) : x.cancel h =
    { x.setSlot h s.cancel.1 with closes := if s.cancel.2.isSome then x.closes + 1 else x.closes }.send h
      s.cancel.2 := by
  simp [cancel, there]

theorem call?_answered (taken : x.call? h c = some y) : Answered x h c y := by
  cases there : x.slot? h with
  | none =>
    obtain rfl : x = y := by
      cases c <;> simpa [call?, signal, arm, cancel, there] using taken
    exact .absent there
  | some s =>
    cases c with
    | signal signal =>
      obtain rfl : x.signal h signal = y := Option.some.inj taken
      rw [signal_eq there]
      exact .made x.closes there rfl
    | arm b =>
      simp only [call?, there, Option.any_some, Option.ite_none_left_eq_some, Option.some.injEq] at taken
      obtain ⟨idle, rfl⟩ := taken
      rw [arm_eq there]
      cases cancelled : s.cancelled with
      | true => exact .refused there (by simp [Slot.call?, Slot.arm, idle, cancelled])
      | false => exact .made x.closes there (by simp [Slot.call?, Slot.arm_live cancelled, idle])
    | cancel =>
      obtain rfl : x.cancel h = y := Option.some.inj taken
      rw [cancel_eq there]
      exact .made _ there rfl

theorem Answered.other (answered : Answered x k c y) (other : h ≠ k) : y.slot? h = x.slot? h := by
  cases answered with
  | absent => rfl
  | refused => rfl
  | made closes =>
    rw [send_eq]
    exact slot?_setSlot.trans (if_neg other)

theorem Answered.own (answered : Answered x h c y) (there : x.slot? h = some s) : ∃ t told,
    s.call? c = some (t, told) ∧ y.slot? h = some t ∧
      y.completions = x.completions ++ if x.receiving then told.toList.map (Completion.mk h) else [] := by
  cases answered with
  | absent absent =>
    rw [there] at absent
    cases absent
  | refused here taken =>
    cases Option.some.inj (there.symm.trans here)
    exact ⟨s, none, taken, there, by simp⟩
  | made closes here taken =>
    cases Option.some.inj (there.symm.trans here)
    rw [send_eq]
    refine ⟨_, _, taken, ?_, rfl⟩
    exact slot?_setSlot.trans (by simp [there])

-- What can happen to subscriptions and their completions.
inductive Action
  | subscribe (h : Handle) (capacity : Nat) (refusal : Option MonitorError) (early : List Signal)
  | call (h : Handle) (c : Call)
  | receive
  | close
deriving DecidableEq, Repr

def Action.opens? : Action → Option Handle
  | .subscribe h _ none _ => some h
  | _ => none

def act? (x : Exchange) : Action → Option Exchange
  | .subscribe h capacity refusal early => some (x.subscribe h capacity refusal early).1
  | .call h c => x.call? h c
  | .receive => some x.receive.2
  | .close => some x.closeReceiver

def run (x : Exchange) : List Action → Option Exchange
  | [] => some x
  | a :: rest => (x.act? a).bind (·.run rest)

def Keeps (x : Exchange) (h : Handle) (capacity : Nat) : Prop :=
  ∃ s, x.slot? h = some s ∧ s.capacity = capacity ∧ s.Sound

theorem Keeps.call? (keeps : x.Keeps h capacity) (taken : x.call? k c = some y) : y.Keeps h capacity := by
  obtain ⟨s, there, limit, sound⟩ := keeps
  by_cases same : h = k
  · subst same
    obtain ⟨t, told, called, here, _⟩ := (call?_answered taken).own there
    exact ⟨t, here, (sound.capacity_call? called).trans limit, sound.next (sound.called called)⟩
  · exact ⟨s, ((call?_answered taken).other same).trans there, limit, sound⟩

theorem slot?_subscribe :
    (x.subscribe h capacity none early).1.slot? h = some (Slot.opened capacity early) :=
  List.lookup_cons_self

theorem slot?_subscribe_other {refusal : Option MonitorError} (other : h ≠ k) :
    (x.subscribe k capacity refusal early).1.slot? h = x.slot? h := by
  cases refusal with
  | some e => rfl
  | none =>
    have cancelled : (x.cancel k).slot? h = x.slot? h := (call?_answered (c := .cancel) rfl).other other
    have behind : (x.subscribe k capacity none early).1.slot? h =
        ((x.cancel k).slots.filter (·.1 != k)).lookup h := by
      simp [slot?, subscribe, List.lookup_cons, beq_false_of_ne other]
    rw [behind, ← cancelled]
    exact lookup_filter_ne other

theorem subscribe_concat {signal : Signal} : (x.subscribe h capacity none (early ++ [signal])).1 =
    (x.subscribe h capacity none early).1.signal h signal := by
  -- no read is pending yet, so that nothing is completed
  have silent : ((Slot.opened capacity early).receive signal).2 = none := (Slot.receive_idle Slot.armed_opened).1
  rw [signal_eq slot?_subscribe, silent, ← Slot.opened_concat]
  simp only [send, setSlot, subscribe, Slot.opened, List.map_cons, if_true, map_filter_ne]

theorem keeps_subscribe : (x.subscribe h capacity none early).1.Keeps h capacity := by
  induction early using List.reverseRecOn with
  | nil => exact ⟨.fresh capacity, slot?_subscribe, rfl, Slot.sound_fresh capacity⟩
  | append_singleton early signal ih =>
    rw [subscribe_concat]
    exact ih.call? (c := .signal signal) rfl

theorem Keeps.act? {a : Action} (keeps : x.Keeps h capacity) (own : a.opens? ≠ some h)
    (acted : x.act? a = some y) : y.Keeps h capacity := by
  cases a with
  | call k c => exact keeps.call? acted
  | receive =>
    cases Option.some.inj acted
    exact keeps
  | close =>
    cases Option.some.inj acted
    exact keeps
  | subscribe k limit refusal early =>
    cases Option.some.inj acted
    cases refusal with
    | some e => exact keeps
    | none =>
      obtain ⟨s, there, kept⟩ := keeps
      have other : h ≠ k := fun same => own (by rw [same]; rfl)
      exact ⟨s, (slot?_subscribe_other other).trans there, kept⟩

theorem Keeps.run {actions : List Action} (keeps : x.Keeps h capacity) (own : ∀ a ∈ actions, a.opens? ≠ some h)
    (ran : x.run actions = some y) : y.Keeps h capacity := by
  induction actions generalizing x with
  | nil =>
    cases ran
    exact keeps
  | cons a rest ih =>
    obtain ⟨next, acted, later⟩ := Option.bind_eq_some_iff.mp ran
    have kept := keeps.act? (own a List.mem_cons_self) acted
    exact ih kept (fun a listed => own a (List.mem_cons_of_mem _ listed)) later

theorem call?_total (there : x.slot? h = some s) (idle : ∀ b, c = .arm b → s.armed = none) :
    ∃ y, x.call? h c = some y := by
  cases c with
  | signal signal => exact ⟨_, rfl⟩
  | arm b => exact ⟨(x.arm h b).1, by simp [call?, there, idle b rfl]⟩
  | cancel => exact ⟨_, rfl⟩

-- From its opening on, until its handle is taken over, a subscription answers every call with one
-- completion at most, at the very moment when there is something to report and a buffer to report it
-- with.
theorem no_wakeup_lost {actions : List Action} (ran : (x.subscribe h capacity none early).1.run actions = some y)
    (own : ∀ a ∈ actions, a.opens? ≠ some h) :
    ∃ s, y.slot? h = some s ∧ s.queue.length ≤ capacity ∧ (s.overflowed = true → s.queue = []) ∧
      (s.armed.isSome = true → s.queue = [] ∧ s.overflowed = false ∧ s.failure = none) ∧
      (s.cancelled = true → s.queue = [] ∧ s.failure = none ∧ s.armed = none) ∧
      ∀ c, (∀ b, c = .arm b → s.armed = none) → ∃ next t told, s.call? c = some (t, told) ∧
        y.call? h c = some next ∧ next.slot? h = some t ∧
          next.completions = (y.completions ++ if y.receiving then told.toList.map (Completion.mk h) else []) ∧
          (told.isSome = true ↔ s.Tells c) ∧ t.armed = if told.isSome then none else s.lent c := by
  obtain ⟨s, there, limit, sound⟩ := keeps_subscribe.run own ran
  refine ⟨s, there, limit ▸ sound.bounded, sound.lossy, sound.pending, sound.ended, fun c idle => ?_⟩
  obtain ⟨next, taken⟩ := call?_total there idle
  obtain ⟨t, told, called, here, sent⟩ := (call?_answered taken).own there
  exact ⟨next, t, told, called, taken, here, sent, sound.told_iff called, sound.armed_call? called⟩

namespace Sample

def first : Handle := ⟨1⟩

def second : Handle := ⟨2⟩

def record (n : UInt8) : Record := ⟨.added, ⟨[n]⟩⟩

def asked : List Action :=
  [.call second (.arm .empty), .call first (.arm .empty), .call second (.signal (.deliver [record 98, record 99])),
    .receive, .subscribe first 4 none [], .call second (.signal (.fail .stopped)), .call second (.arm .empty)]

def outcome : Exchange :=
  ⟨[(first, .fresh 4), (second, ⟨1, [], false, some .stopped, none, false⟩)],
    [⟨first, .aborted (some .empty)⟩, ⟨second, .overflow .empty⟩], true, 3, 1⟩

end Sample

theorem no_wakeup_lost_failure : let opening := (empty.subscribe Sample.first 8 none []).1
    (opening.subscribe Sample.second 1 none [.deliver [Sample.record 97]]).1.run Sample.asked = some Sample.outcome ∧
      (∀ a ∈ Sample.asked, a.opens? ≠ some Sample.second) ∧
      ∃ next status, Sample.outcome.call? Sample.second (.arm .empty) = some next ∧
        next.completions = Sample.outcome.completions ++ [⟨Sample.second, status⟩] := by
  intro opening
  have ran : (opening.subscribe Sample.second 1 none [.deliver [Sample.record 97]]).1.run Sample.asked =
      some Sample.outcome := by decide
  have own : ∀ a ∈ Sample.asked, a.opens? ≠ some Sample.second := by decide
  obtain ⟨s, there, _, _, _, _, answers⟩ := no_wakeup_lost ran own
  obtain rfl : ⟨1, [], false, some .stopped, none, false⟩ = s := Option.some.inj there
  obtain ⟨next, t, told, _, taken, _, sent, tells, _⟩ := answers (.arm .empty) fun _ _ => rfl
  have waits : told.isSome = true := tells.mpr ⟨rfl, .inr (.inr nofun)⟩
  obtain ⟨status, rfl⟩ := Option.isSome_iff_exists.mp waits
  exact ⟨ran, own, next, status, taken, sent⟩

end Exchange

end DirWatch
