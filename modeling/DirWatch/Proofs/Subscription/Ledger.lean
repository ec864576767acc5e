import DirWatch.Proofs.Subscription.Slot

namespace DirWatch

-- Completions are counted from the first one on. What is lost is lost after the first `n` of them.
inductive Fate
  | carried (n : Nat)
  | lost (n : Nat)
  | discarded
deriving DecidableEq, Repr

def Fate.isCarried : Fate → Bool
  | .carried _ => true
  | _ => false

def Status.records : Status → List Record
  | .notifications b => b.records
  | _ => []

-- A completion after which nobody relies on what came before it: the loss of records, or the end.
def Status.Breaks (status : Status) : Prop := (∃ b, status = .overflow b) ∨ ∃ b, status = .aborted b

-- A subscription, the completions so far, and the records that have left its queue, in the order in
-- which they were delivered.
structure Ledger where
  slot : Slot
  emitted : List Status
  settled : List (Record × Fate)
deriving DecidableEq, Repr

namespace Ledger

open Slot (Call)

variable {capacity : Nat} {l next : Ledger} {c : Call} {calls : List Call} {status : Option Status}
  {sent : List Record}

def start (capacity : Nat) : Ledger := ⟨.fresh capacity, [], []⟩

-- The fate that a call brings on every record that waits or comes with it, unless they wait on.
def fate? (l : Ledger) (c : Call) (status : Option Status) : Option Fate :=
  if l.slot.cancelled then none
  else if c = .cancel then some .discarded
  else if (l.slot.feed c).overflowed then some (.lost l.emitted.length)
  else match status with
    | some (.notifications _) => some (.carried l.emitted.length)
    | _ => none

def settle (l : Ledger) (c : Call) (status : Option Status) : List (Record × Fate) :=
  match l.fate? c status with
  | some fate => l.settled ++ (l.slot.queue ++ c.records).map (·, fate)
  | none => l.settled

def call? (l : Ledger) (c : Call) : Option Ledger :=
  (l.slot.call? c).map fun (slot, status) => ⟨slot, l.emitted ++ status.toList, l.settle c status⟩

def run (l : Ledger) : List Call → Option Ledger
  | [] => some l
  | c :: rest => (l.call? c).bind (·.run rest)

def delivered : List Call → List Record
  | [] => []
  | .cancel :: _ => []
  | c :: rest => c.records ++ delivered rest

def Justified (l : Ledger) (entry : Record × Fate) : Prop :=
  match entry.2 with
  | .carried n => ∃ b, l.emitted[n]? = some (.notifications b) ∧ entry.1 ∈ b.records
  | .lost n => (∃ status, l.emitted[n]? = some status ∧ status.Breaks) ∨
      n = l.emitted.length ∧ l.slot.overflowed = true ∧ l.slot.cancelled = false
  | .discarded => l.slot.cancelled = true

def Fitting (capacity : Nat) : Status → Prop
  | .notifications b => 1 ≤ b.records.length ∧ b.records.length ≤ capacity
  | .overflow b => b.records = []
  | _ => True

-- The ledger after the records `sent` were delivered, some of which may still wait.
structure Balanced (capacity : Nat) (sent : List Record) (l : Ledger) : Prop where
  sound : l.slot.Sound
  limit : l.slot.capacity = capacity
  empty : ∀ b, l.slot.armed = some b → b = .empty
  complete : l.settled.map Prod.fst ++ l.slot.queue = sent
  carried : (l.settled.filter fun entry => entry.2.isCarried).map Prod.fst = l.emitted.flatMap Status.records
  justified : ∀ entry ∈ l.settled, l.Justified entry
  fitting : ∀ status ∈ l.emitted, Fitting capacity status
  ended : ∀ b, .aborted b ∈ l.emitted → l.slot.cancelled = true

theorem balanced_start : (start capacity).Balanced capacity [] :=
  ⟨Slot.sound_fresh capacity, rfl, nofun, rfl, rfl, nofun, nofun, nofun⟩

@[simp]
theorem map_fate {rs : List Record} {fate : Fate} : (rs.map (·, fate)).map Prod.fst = rs := by
  simp [Function.comp_def]

@[simp]
theorem carried_fate {rs : List Record} {fate : Fate} :
    ((rs.map (·, fate)).filter fun entry => entry.2.isCarried).map Prod.fst =
      if fate.isCarried then rs else [] := by
  rw [List.filter_map]
  cases kind : fate.isCarried <;> simp [Function.comp_def, kind]

section Settle

variable (live : l.slot.cancelled = false) (heard : c ≠ .cancel)
include live heard

theorem settle_lost (lost : (l.slot.feed c).overflowed = true) : l.settle c status =
    l.settled ++ (l.slot.queue ++ c.records).map (·, .lost l.emitted.length) := by
  simp [settle, fate?, live, heard, lost]

theorem settle_carried {b : Buffer} (kept : (l.slot.feed c).overflowed = false) :
    l.settle c (some (.notifications b)) =
      l.settled ++ (l.slot.queue ++ c.records).map (·, .carried l.emitted.length) := by
  simp [settle, fate?, live, heard, kept]

theorem settle_kept (kept : (l.slot.feed c).overflowed = false)
    (other : ∀ b, status ≠ some (.notifications b)) : l.settle c status = l.settled := by
  cases status with
  | none => simp [settle, fate?, live, heard, kept]
  | some s =>
    cases s with
    | notifications b => exact absurd rfl (other b)
    | _ => simp [settle, fate?, live, heard, kept]

end Settle

theorem Justified.later {entry : Record × Fate} {more : List Status} (justified : l.Justified entry)
    (emitted : next.emitted = l.emitted ++ more) (ended : l.slot.cancelled = true → next.slot.cancelled = true)
    (reported : l.slot.overflowed = true → l.slot.cancelled = false →
      (more = [] ∧ next.slot.overflowed = true ∧ next.slot.cancelled = false) ∨
        ∃ status, more = [status] ∧ status.Breaks) : next.Justified entry := by
  obtain ⟨r, fate⟩ := entry
  have kept {n : Nat} {status : Status} (there : l.emitted[n]? = some status) :
      next.emitted[n]? = some status := by
    obtain ⟨within, _⟩ := List.getElem?_eq_some_iff.mp there
    rw [emitted, List.getElem?_append_left within, there]
  cases fate with
  | carried n =>
    obtain ⟨b, there, brought⟩ := justified
    exact ⟨b, kept there, brought⟩
  | discarded => exact ended justified
  | lost n =>
    rcases justified with ⟨status, there, breaks⟩ | ⟨rfl, lost, live⟩
    · exact .inl ⟨status, kept there, breaks⟩
    · rcases reported lost live with ⟨rfl, still, alive⟩ | ⟨status, rfl, breaks⟩
      · exact .inr ⟨by simp [emitted], still, alive⟩
      · exact .inl ⟨status, by simp [emitted], breaks⟩

theorem call?_eq (taken : l.call? c = some next) : ∃ slot status, l.slot.call? c = some (slot, status) ∧
    next = ⟨slot, l.emitted ++ status.toList, l.settle c status⟩ := by
  obtain ⟨⟨slot, status⟩, called, rfl⟩ := Option.map_eq_some_iff.mp taken
  exact ⟨slot, status, called, rfl⟩

section Step

variable (balanced : l.Balanced capacity sent)
include balanced

theorem Balanced.lent {b : Buffer} (emptied : ∀ b, c = .arm b → b = .empty)
    (armed : (l.slot.feed c).armed = some b) : b = .empty := by
  cases c with
  | arm given =>
    obtain rfl : given = b := Option.some.inj armed
    exact emptied given rfl
  | cancel => exact balanced.empty b armed
  | signal x => exact balanced.empty b (Slot.feed_signal.1.symm.trans armed)

-- The books stay balanced if some of what waits or comes with a call is settled, and the rest waits on.
theorem Balanced.grow (status : Option Status) (new : List (Record × Fate)) (more : List Record) {slot : Slot}
    (sound : slot.Sound) (limit : slot.capacity = l.slot.capacity) (empty : ∀ b, slot.armed = some b → b = .empty)
    (all : new.map Prod.fst ++ slot.queue = l.slot.queue ++ more)
    (brought : (new.filter fun entry => entry.2.isCarried).map Prod.fst = status.toList.flatMap Status.records)
    (justified : ∀ entry ∈ new, Justified ⟨slot, l.emitted ++ status.toList, l.settled ++ new⟩ entry)
    (reported : l.slot.overflowed = true → l.slot.cancelled = false →
      (status.toList = [] ∧ slot.overflowed = true ∧ slot.cancelled = false) ∨
        ∃ s, status.toList = [s] ∧ s.Breaks)
    (fitting : ∀ s ∈ status.toList, Fitting capacity s)
    (ended : ∀ b, .aborted b ∈ status.toList → slot.cancelled = true)
    (stays : l.slot.cancelled = true → slot.cancelled = true) :
    Balanced capacity (sent ++ more) ⟨slot, l.emitted ++ status.toList, l.settled ++ new⟩ := by
  refine ⟨sound, limit.trans balanced.limit, empty, ?_, ?_, fun entry listed => ?_, fun s listed => ?_,
    fun b listed => ?_⟩
  · rw [List.map_append, List.append_assoc, all, ← List.append_assoc, balanced.complete]
  · rw [List.filter_append, List.map_append, balanced.carried, brought, List.flatMap_append]
  · rcases List.mem_append.mp listed with old | fresh
    · exact (balanced.justified entry old).later rfl stays reported
    · exact justified entry fresh
  · rcases List.mem_append.mp listed with old | fresh
    · exact balanced.fitting s old
    · exact fitting s fresh
  · rcases List.mem_append.mp listed with old | fresh
    · exact stays (balanced.ended b old)
    · exact ended b fresh

theorem Balanced.ends (live : l.slot.cancelled = false)
    (sound : Slot.Sound { l.slot with cancelled := true, queue := [], failure := none, armed := none }) :
    Balanced capacity sent
      ⟨{ l.slot with cancelled := true, queue := [], failure := none, armed := none },
        l.emitted ++ [.aborted l.slot.armed], l.settle .cancel (some (.aborted l.slot.armed))⟩ := by
  have settled : l.settle .cancel (some (.aborted l.slot.armed)) =
      l.settled ++ l.slot.queue.map (·, .discarded) := by
    simp [settle, fate?, live, Call.records]
  have grown := balanced.grow (some (.aborted l.slot.armed)) (l.slot.queue.map (·, .discarded)) [] sound rfl
    nofun (by rw [map_fate]) carried_fate ?_ (fun _ _ => .inr ⟨_, rfl, .inr ⟨_, rfl⟩⟩) ?_ (fun _ _ => rfl)
    fun _ => rfl
  · rw [settled, ← List.append_nil sent]
    exact grown
  · intro entry listed
    obtain ⟨r, _, rfl⟩ := List.mem_map.mp listed
    rfl
  · simp [Fitting]

section Heard

variable (live : l.slot.cancelled = false) (heard : c ≠ .cancel)
include live heard

theorem Balanced.silent (sound : (l.slot.feed c).Sound)
    (empty : ∀ b, (l.slot.feed c).armed = some b → b = .empty) :
    Balanced capacity (sent ++ c.records) ⟨l.slot.feed c, l.emitted ++ [], l.settle c none⟩ := by
  have fed := balanced.sound.fed c
  have alive := fed.cancelled.trans live
  cases lost : (l.slot.feed c).overflowed with
  | true =>
    rw [settle_lost live heard lost]
    refine balanced.grow none _ _ sound fed.capacity empty (by rw [map_fate, fed.lossy lost, List.append_nil])
      carried_fate (fun entry listed => ?_) (fun _ _ => .inl ⟨rfl, lost, alive⟩) nofun nofun
      fun ended => by simp [live] at ended
    obtain ⟨r, _, rfl⟩ := List.mem_map.mp listed
    exact .inr ⟨by simp, lost, alive⟩
  | false =>
    obtain ⟨before, queue⟩ := fed.kept lost
    rw [settle_kept live heard lost (by simp), ← List.append_nil l.settled]
    refine balanced.grow none [] _ sound fed.capacity empty queue rfl nofun (fun was => ?_) nofun nofun
      fun ended => by simp [live] at ended
    rw [before] at was
    cases was

theorem Balanced.overflow {b : Buffer} (sound : Slot.Sound
      { l.slot.feed c with armed := none, overflowed := false, queue := [] })
    (lost : (l.slot.feed c).overflowed = true) (lent : b = .empty) : Balanced capacity (sent ++ c.records)
      ⟨{ l.slot.feed c with armed := none, overflowed := false, queue := [] }, l.emitted ++ [.overflow b],
        l.settle c (some (.overflow b))⟩ := by
  rw [settle_lost live heard lost]
  refine balanced.grow (some (.overflow b)) _ _ sound (balanced.sound.fed c).capacity nofun
    (by rw [map_fate, List.append_nil]) carried_fate (fun entry listed => ?_)
    (fun _ _ => .inr ⟨_, rfl, .inl ⟨b, rfl⟩⟩) (by simp [Fitting, lent, Buffer.empty]) (by simp)
    fun ended => by simp [live] at ended
  obtain ⟨r, _, rfl⟩ := List.mem_map.mp listed
  exact .inl ⟨.overflow b, by simp, .inl ⟨b, rfl⟩⟩

theorem Balanced.notifications {b : Buffer} (sound : Slot.Sound
      { l.slot.feed c with armed := none, queue := [] })
    (kept : (l.slot.feed c).overflowed = false) (some_ : (l.slot.feed c).queue ≠ []) (lent : b = .empty) :
    Balanced capacity (sent ++ c.records)
      ⟨{ l.slot.feed c with armed := none, queue := [] },
        l.emitted ++ [.notifications ⟨b.records ++ (l.slot.feed c).queue⟩],
        l.settle c (some (.notifications ⟨b.records ++ (l.slot.feed c).queue⟩))⟩ := by
  have fed := balanced.sound.fed c
  obtain ⟨before, queue⟩ := fed.kept kept
  -- the buffer was lent empty, so it comes back with what was waiting and nothing else
  have bring : b.records ++ (l.slot.feed c).queue = l.slot.queue ++ c.records := by
    rw [lent, ← queue]
    rfl
  rw [settle_carried live heard kept]
  refine balanced.grow (some (.notifications ⟨b.records ++ (l.slot.feed c).queue⟩)) _ _ sound fed.capacity nofun
    (by rw [map_fate, List.append_nil]) (carried_fate.trans ?_) (fun entry listed => ?_) (fun was => ?_)
    (fun s listed => ?_) (by simp) fun ended => by simp [live] at ended
  · simp [Fate.isCarried, Status.records, bring]
  · obtain ⟨r, waited, rfl⟩ := List.mem_map.mp listed
    exact ⟨⟨b.records ++ (l.slot.feed c).queue⟩, by simp, bring ▸ waited⟩
  · rw [before] at was
    cases was
  · obtain rfl := List.mem_singleton.mp listed
    have bounded := fed.bounded
    rw [fed.capacity, balanced.limit] at bounded
    rw [queue] at bounded some_
    show 1 ≤ (b.records ++ (l.slot.feed c).queue).length ∧ _ ≤ capacity
    rw [bring]
    exact ⟨List.length_pos_of_ne_nil some_, bounded⟩

theorem Balanced.failed {b : Buffer} {e : MonitorError} (sound : Slot.Sound
      { l.slot.feed c with armed := none, failure := none })
    (kept : (l.slot.feed c).overflowed = false) : Balanced capacity (sent ++ c.records)
      ⟨{ l.slot.feed c with armed := none, failure := none }, l.emitted ++ [.failed b e],
        l.settle c (some (.failed b e))⟩ := by
  have fed := balanced.sound.fed c
  obtain ⟨before, queue⟩ := fed.kept kept
  rw [settle_kept live heard kept (by simp), ← List.append_nil l.settled]
  refine balanced.grow (some (.failed b e)) [] _ sound fed.capacity nofun queue rfl nofun (fun was => ?_)
    (by simp [Fitting]) (by simp) fun ended => by simp [live] at ended
  rw [before] at was
  cases was

end Heard

theorem Balanced.call? (emptied : ∀ b, c = .arm b → b = .empty) (taken : l.call? c = some next) :
    Balanced capacity (sent ++ if l.slot.cancelled then [] else c.records) next := by
  obtain ⟨slot, status, called, rfl⟩ := call?_eq taken
  have called := balanced.sound.called called
  have sound := balanced.sound.next called
  cases called with
  | deaf cancelled =>
    have same : l.settle c none = l.settled := by simp [settle, fate?, cancelled]
    simpa [cancelled, same] using balanced
  | ends live ending =>
    subst ending
    simpa [live, Call.records] using balanced.ends live sound
  | heard live other completes =>
    simp only [live, Bool.false_eq_true, if_false]
    cases completes with
    | idle idle => exact balanced.silent live other sound (by simp [idle])
    | waits armed => exact balanced.silent live other sound fun b => balanced.lent emptied
    | overflow armed lost => exact balanced.overflow live other sound lost (balanced.lent emptied armed)
    | notifications armed kept some =>
      exact balanced.notifications live other sound kept some (balanced.lent emptied armed)
    | failed armed kept => exact balanced.failed live other sound kept

-- When a failure is reported, nothing waits and no loss is unreported: every record has been carried, or
-- its loss has been told.
theorem Balanced.settled_of_failed {b : Buffer} {e : MonitorError} (taken : l.call? c = some next)
    (failed : next.emitted = l.emitted ++ [.failed b e]) : l.slot.queue = [] ∧ l.slot.overflowed = false ∧
      c.records = [] ∧ ∀ entry ∈ l.settled,
        (∃ n b, entry.2 = .carried n ∧ l.emitted[n]? = some (.notifications b) ∧ entry.1 ∈ b.records) ∨
          ∃ n b, entry.2 = .lost n ∧ l.emitted[n]? = some (.overflow b) := by
  obtain ⟨slot, status, called, rfl⟩ := call?_eq taken
  have called := balanced.sound.called called
  have told : status = some (.failed b e) := by
    cases status with
    | none => simp at failed
    | some s => simpa using failed
  subst told
  cases called with
  | heard live other completes =>
    cases completes with
    | failed armed kept empty =>
      obtain ⟨before, queue⟩ := (balanced.sound.fed c).kept kept
      obtain ⟨waiting, none⟩ := List.append_eq_nil_iff.mp (queue.symm.trans empty)
      refine ⟨waiting, before, none, fun entry listed => ?_⟩
      have justified := balanced.justified entry listed
      obtain ⟨r, fate⟩ := entry
      cases fate with
      | carried n =>
        obtain ⟨b, there, brought⟩ := justified
        exact .inl ⟨n, b, rfl, there, brought⟩
      | lost n =>
        rcases justified with ⟨status, there, ⟨b, rfl⟩ | ⟨b, rfl⟩⟩ | ⟨_, lossy, _⟩
        · exact .inr ⟨n, b, rfl, there⟩
        · have ended := balanced.ended b (List.mem_of_getElem? there)
          rw [live] at ended
          cases ended
        · rw [before] at lossy
          cases lossy
      | discarded =>
        rw [show l.slot.cancelled = true from justified] at live
        cases live

end Step

theorem cancelled_call? (sound : l.slot.Sound) (taken : l.call? c = some next) :
    next.slot.cancelled = (l.slot.cancelled || decide (c = .cancel)) := by
  obtain ⟨slot, status, called, rfl⟩ := call?_eq taken
  have called := sound.called called
  cases called with
  | deaf cancelled => simp [cancelled]
  | ends live ending => simp [ending]
  | heard live other completes =>
    have still := (sound.fed c).cancelled
    cases completes <;> simp [still, other]

theorem delivered_cons {rest : List Call} :
    delivered (c :: rest) = if c = .cancel then [] else c.records ++ delivered rest := by
  cases c <;> rfl

theorem Balanced.run (balanced : l.Balanced capacity sent) (emptied : ∀ b, .arm b ∈ calls → b = .empty)
    (ran : l.run calls = some next) :
    Balanced capacity (sent ++ if l.slot.cancelled then [] else delivered calls) next := by
  induction calls generalizing l sent with
  | nil =>
    cases ran
    simpa [delivered] using balanced
  | cons c rest ih =>
    obtain ⟨mid, taken, later⟩ := Option.bind_eq_some_iff.mp ran
    have one := balanced.call? (fun b here => emptied b (here ▸ List.mem_cons_self)) taken
    have all := ih one (fun b listed => emptied b (List.mem_cons_of_mem _ listed)) later
    rw [cancelled_call? balanced.sound taken] at all
    rw [delivered_cons]
    cases cancelled : l.slot.cancelled with
    | true => simpa [cancelled] using all
    | false =>
      by_cases ending : c = .cancel
      · simpa [cancelled, ending, Call.records] using all
      · simpa [cancelled, ending] using all

-- Whatever the calls, with buffers lent empty: each record that was delivered waits in the queue or has
-- one fate, those carried come out in the order of their delivery, and what was lost is told before any
-- failure is.
theorem deliveries_accounted (ran : (start capacity).run calls = some l)
    (emptied : ∀ b, .arm b ∈ calls → b = .empty) :
    l.settled.map Prod.fst ++ l.slot.queue = delivered calls ∧
      (l.settled.filter fun entry => entry.2.isCarried).map Prod.fst = l.emitted.flatMap Status.records ∧
      (l.emitted.flatMap Status.records ++ l.slot.queue).Sublist (delivered calls) ∧
      (∀ entry ∈ l.settled, match entry.2 with
        | .carried n => ∃ b, l.emitted[n]? = some (.notifications b) ∧ entry.1 ∈ b.records
        | .lost n => ∀ status, l.emitted[n]? = some status → status.Breaks
        | .discarded => l.slot.cancelled = true) ∧
      (∀ status ∈ l.emitted, match status with
        | .notifications b => 1 ≤ b.records.length ∧ b.records.length ≤ capacity
        | .overflow b => b.records = []
        | _ => True) ∧
      ∀ c next b e, l.call? c = some next → next.emitted = l.emitted ++ [.failed b e] →
        l.slot.queue = [] ∧ l.slot.overflowed = false ∧ c.records = [] ∧ ∀ entry ∈ l.settled,
          (∃ n b, entry.2 = .carried n ∧ l.emitted[n]? = some (.notifications b) ∧ entry.1 ∈ b.records) ∨
            ∃ n b, entry.2 = .lost n ∧ l.emitted[n]? = some (.overflow b) := by
  have balanced := balanced_start.run emptied ran
  have complete : l.settled.map Prod.fst ++ l.slot.queue = delivered calls := balanced.complete
  refine ⟨complete, balanced.carried, ?_, fun entry listed => ?_, fun status listed => ?_,
    fun c next b e taken failed => balanced.settled_of_failed taken failed⟩
  · rw [← complete, ← balanced.carried]
    exact (List.filter_sublist.map Prod.fst).append_right l.slot.queue
  · have justified := balanced.justified entry listed
    obtain ⟨r, fate⟩ := entry
    cases fate with
    | carried n => exact justified
    | discarded => exact justified
    | lost n =>
      intro status there
      rcases justified with ⟨told, here, breaks⟩ | ⟨rfl, _⟩
      · exact Option.some.inj (here.symm.trans there) ▸ breaks
      · simp at there
  · have fitting := balanced.fitting status listed
    cases status <;> exact fitting

namespace Sample

def record (n : UInt8) : Record := ⟨.added, ⟨[n]⟩⟩

-- With room for one record only: one is carried, two are lost, and one is waiting when all ends.
def asked : List Call :=
  [.signal (.deliver [record 97]), .arm .empty, .signal (.deliver [record 98]), .signal (.deliver [record 99]),
    .signal (.fail .stopped), .arm .empty, .arm .empty, .signal (.deliver [record 100]), .cancel]

def outcome : Ledger :=
  ⟨⟨1, [], false, none, none, true⟩,
    [.notifications ⟨[record 97]⟩, .overflow .empty, .failed .empty .stopped, .aborted none],
    [(record 97, .carried 0), (record 98, .lost 1), (record 99, .lost 1), (record 100, .discarded)]⟩

end Sample

theorem deliveries_accounted_overflow : (start 1).run Sample.asked = some Sample.outcome ∧
    (Sample.outcome.emitted.flatMap Status.records ++ Sample.outcome.slot.queue).Sublist
      (delivered Sample.asked) := by
  have ran : (start 1).run Sample.asked = some Sample.outcome := by decide
  refine ⟨ran, (deliveries_accounted ran fun b listed => ?_).2.2.1⟩
  simpa [Sample.asked] using listed

end Ledger

end DirWatch
