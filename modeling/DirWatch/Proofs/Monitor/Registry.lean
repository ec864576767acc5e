import DirWatch.Proofs.Monitor.Heard
import DirWatch.Proofs.Monitor.Protocol
import Mathlib.Data.List.Nodup

namespace DirWatch.Monitor

variable {m m' : Monitor} {h k : Handle} {w : Watch} {d : Disk} {backend : Backend} {c : Completion}
  {rest : List Completion} {out out' : Handle → Prop} {lent lent' : Prop} {new statuses : List Status}
  {slot : Slot} {reactions : List Reaction} {error : MonitorError} {outcome : Outcome} {buffer : Buffer}

-- Where the read of a watch is, given the completions queued for it. While the loop serves one of them it
-- may have the buffer itself.
inductive Custody (lent : Prop) (w : Watch) : List Status → Prop
  | pending : w.state = .active → w.slot.cancelled = false → w.slot.armed.isSome = true → Custody lent w []
  | completed {status : Status} : w.state = .active → w.slot.cancelled = false → w.slot.armed = none →
      status.isAborted = false → Custody lent w [status]
  | served : lent → w.state = .active → w.slot.cancelled = false → w.slot.armed = none → Custody lent w []
  | closing {before : List Status} {b : Option Buffer} : w.state = .cancelling → w.slot.cancelled = true →
      (∀ status ∈ before, status.isAborted = false) → Custody lent w (before ++ [.aborted b])

theorem Custody.weaken (custody : Custody lent w statuses) (weaker : lent → lent') :
    Custody lent' w statuses := by
  cases custody with
  | pending active live armed => exact .pending active live armed
  | completed active live done other => exact .completed active live done other
  | served given active live done => exact .served (weaker given) active live done
  | closing ending cancelled before => exact .closing ending cancelled before

theorem Custody.of_same {v : Watch} (custody : Custody lent w statuses) (state : v.state = w.state)
    (slot : v.slot = w.slot) : Custody lent v statuses := by
  cases custody with
  | pending active live armed => exact .pending (state.trans active) (slot ▸ live) (slot ▸ armed)
  | completed active live done other =>
    exact .completed (state.trans active) (slot ▸ live) (slot ▸ done) other
  | served given active live done => exact .served given (state.trans active) (slot ▸ live) (slot ▸ done)
  | closing ending cancelled before => exact .closing (state.trans ending) (slot ▸ cancelled) before

theorem Custody.settled (custody : Custody lent w statuses) (inactive : w.state ≠ .active) :
    Custody lent' w statuses := by
  cases custody with
  | pending active => exact absurd active inactive
  | completed active => exact absurd active inactive
  | served _ active => exact absurd active inactive
  | closing ending cancelled before => exact .closing ending cancelled before

theorem Custody.heard (custody : Custody lent w statuses) (heard : w.slot.Hears slot new) :
    Custody lent { w with slot } (statuses ++ new) := by
  cases heard with
  | keeps armed cancelled =>
    rw [List.append_nil]
    cases custody with
    | pending active live lent => exact .pending active (cancelled.trans live) (by simpa [armed] using lent)
    | completed active live done other =>
      exact .completed active (cancelled.trans live) (armed.trans done) other
    | served given active live done => exact .served given active (cancelled.trans live) (armed.trans done)
    | closing ending stopped before => exact .closing ending (cancelled.trans stopped) before
  | returns live armed live' done other =>
    -- only a pending read can be completed
    cases custody with
    | pending active => exact .completed active live' done other
    | completed _ _ none => simp [none] at armed
    | served _ _ _ none => simp [none] at armed
    | closing _ stopped => simp [stopped] at live

theorem Custody.cancel (custody : Custody lent w statuses) (active : w.state = .active) :
    Custody lent' { w with slot := w.slot.cancel.1, state := .cancelling }
      (statuses ++ w.slot.cancel.2.toList) := by
  have ends (live : w.slot.cancelled = false) (before : ∀ status ∈ statuses, status.isAborted = false) :
      Custody lent' { w with slot := w.slot.cancel.1, state := .cancelling }
        (statuses ++ w.slot.cancel.2.toList) := by
    rw [Slot.cancel_live live]
    exact .closing rfl rfl before
  cases custody with
  | pending _ live => exact ends live nofun
  | completed _ live _ other => exact ends live (by simpa using other)
  | served _ _ live => exact ends live nofun
  | closing ending =>
    rw [active] at ending
    cases ending

-- The registry while the buffers of the watches in `out` may be in the hands of the loop.
structure Registry (out : Handle → Prop) (m : Monitor) : Prop where
  counted : m.requests = m.watches.length
  distinct : (m.watches.map Watch.handle).Nodup
  custody : ∀ h w, m.watch? h = some w → Custody (out h) w (m.statusesOf h)
  unknown : ∀ h, m.watch? h = none → m.statusesOf h = []

-- Between two steps of the loop no buffer is in its hands.
abbrev Registry.Whole (m : Monitor) : Prop := Registry (fun _ => False) m

theorem Registry.start (settings : Settings) : Registry out (start settings) := by
  refine ⟨rfl, List.nodup_nil, fun h w seen => ?_, fun h _ => rfl⟩
  cases seen

theorem requests_pos (registry : Registry out m) (seen : m.watch? h = some w) : 0 < m.requests := by
  rw [registry.counted]
  exact List.length_pos_of_mem (List.mem_of_find?_eq_some seen)

section Step

variable (registry : Registry out m)
include registry

theorem Registry.weaken (weaker : ∀ k, out k → out' k) : Registry out' m :=
  ⟨registry.counted, registry.distinct, fun k w seen => (registry.custody k w seen).weaken (weaker k),
    registry.unknown⟩

omit registry in
theorem Registry.keep {p : Handle → Prop} (registry : Registry (fun k => out k ∧ p k) m) : Registry out m :=
  registry.weaken fun _ given => given.1

omit registry in
theorem Registry.whole (registry : Registry (fun k => k = h ∧ k ≠ h) m) : Registry.Whole m :=
  registry.weaken fun _ given => given.2 given.1

-- What concerns one watch only leaves the custody of all others as it is.
theorem Registry.of_others (counted : m'.requests = m'.watches.length)
    (distinct : (m'.watches.map Watch.handle).Nodup)
    (others : ∀ k, k ≠ h → m'.watch? k = m.watch? k ∧ m'.statusesOf k = m.statusesOf k)
    (weaker : ∀ k, k ≠ h → out k → out' k)
    (custody : ∀ w, m'.watch? h = some w → Custody (out' h) w (m'.statusesOf h))
    (unknown : m'.watch? h = none → m'.statusesOf h = []) : Registry out' m' := by
  refine ⟨counted, distinct, fun k w seen => ?_, fun k none => ?_⟩
  · by_cases same : k = h
    · subst same
      exact custody w seen
    · obtain ⟨watch, queue⟩ := others k same
      rw [queue]
      exact (registry.custody k w (watch ▸ seen)).weaken (weaker k same)
  · by_cases same : k = h
    · subst same
      exact unknown none
    · obtain ⟨watch, queue⟩ := others k same
      rw [queue]
      exact registry.unknown k (watch ▸ none)

theorem Registry.hears (hears : Hears m m') : Registry out m' := by
  have length : m'.watches.length = m.watches.length := by
    simpa using congrArg List.length hears.handles
  refine ⟨?_, hears.handles ▸ registry.distinct, fun k w seen => ?_, fun k none => ?_⟩
  · rw [hears.requests, length, registry.counted]
  · obtain ⟨v, new, before, same, heard, more⟩ := hears.before seen
    rw [same, more]
    exact (registry.custody k v before).heard heard
  · cases before : m.watch? k with
    | none =>
      rw [(hears.unknown k before).2]
      exact registry.unknown k before
    | some v =>
      obtain ⟨slot, new, found, _⟩ := hears.known k v before
      rw [found] at none
      cases none

theorem Registry.amends {f : Watch → Watch} (amends : Amends h f new m m') (seen : m.watch? h = some w)
    (custody : Custody (out' h) (f w) (m.statusesOf h ++ new)) (weaker : ∀ k, k ≠ h → out k → out' k) :
    Registry out' m' := by
  refine registry.of_others ?_ (amends.handles ▸ registry.distinct) (fun k other => ?_) weaker
    (fun v there => ?_) fun none => ?_
  · rw [amends.requests, registry.counted]
    simpa using (congrArg List.length amends.handles).symm
  · rw [amends.watches, amends.statuses, if_neg other, if_neg other]
    exact ⟨rfl, rfl⟩
  · rw [amends.watches, if_pos rfl, seen, Option.map_some] at there
    cases there
    rw [amends.statuses, if_pos rfl]
    exact custody
  · rw [amends.watches, if_pos rfl, seen] at none
    cases none

theorem Registry.settled (inactive : m.isActive h = false) : Registry (fun k => out k ∧ k ≠ h) m := by
  refine registry.of_others registry.counted registry.distinct (fun k _ => ⟨rfl, rfl⟩)
    (fun k other given => ⟨given, other⟩) (fun w seen => ?_) (registry.unknown h)
  exact (registry.custody h w seen).settled (by simpa [isActive_of_seen seen] using inactive)

theorem Registry.setSnapshot {s : Snapshot} : Registry out (m.setSnapshot h s) := by
  have amends := @amends_setSnapshot m h s
  cases seen : m.watch? h with
  | none =>
    have same (k : Handle) : (m.setSnapshot h s).watch? k = m.watch? k := by
      rw [amends.watches, seen]
      split
      · rename_i here
        rw [here, seen]
        rfl
      · rfl
    exact ⟨by simpa [Monitor.setSnapshot, update] using registry.counted, amends.handles ▸ registry.distinct,
      fun k w there => registry.custody k w (same k ▸ there), fun k none => registry.unknown k (same k ▸ none)⟩
  | some w =>
    refine registry.amends amends seen ?_ fun _ _ given => given
    rw [List.append_nil]
    exact (registry.custody h w seen).of_same rfl rfl

theorem Registry.cancel : Registry (fun k => out k ∧ k ≠ h) (m.cancel h) := by
  cases active : m.isActive h with
  | false =>
    rw [cancel_of_inactive active]
    exact registry.settled active
  | true =>
    obtain ⟨w, seen⟩ := watch_of_active active
    have active : w.state = .active := by simpa [isActive_of_seen seen] using active
    have amends := amends_cancel seen active
    exact registry.amends amends seen ((registry.custody h w seen).cancel active)
      fun k other given => ⟨given, other⟩

theorem Registry.cancels (handles : List Handle) : Registry out (handles.foldl Monitor.cancel m) := by
  induction handles generalizing m with
  | nil => exact registry
  | cons h rest ih => exact ih (registry.cancel.keep)

theorem Registry.fail : Registry (fun k => out k ∧ k ≠ h) (m.fail h error) := by
  unfold Monitor.fail
  split
  · exact (registry.hears hears_tellWatch).cancel
  · rename_i inactive
    exact registry.settled (by simpa using inactive)

theorem Registry.rootRemoved : Registry out (m.rootRemoved h) := by
  unfold Monitor.rootRemoved
  split
  · exact registry.fail.keep
  · exact registry

theorem Registry.deliver : Registry out (m.deliver h outcome) := by
  have taken : Registry out (m.setSnapshot h outcome.snapshot) := registry.setSnapshot
  unfold Monitor.deliver
  dsimp only
  split
  · have told : Registry out (if outcome.changes.isEmpty then m.setSnapshot h outcome.snapshot
        else (m.setSnapshot h outcome.snapshot).tellWatch (.changed h outcome.changes)) := by
      split
      · exact taken
      · exact taken.hears hears_tellWatch
    split
    · exact told.rootRemoved
    · exact told
  · exact taken

omit registry in
theorem Registry.arm (registry : Registry (· = h) m) (buffer : Buffer) (seen : m.watch? h = some w)
    (active : w.state = .active) (live : w.slot.cancelled = false) (none : m.statusesOf h = []) :
    Registry.Whole (m.arm h buffer).1 ∧ (m.arm h buffer).2 = Option.none := by
  have equal : m.arm h buffer = ((m.setSlot h (w.slot.feed (.arm buffer)).complete.1).send h
      (w.slot.feed (.arm buffer)).complete.2, Option.none) := by
    unfold Monitor.arm
    rw [seen]
    dsimp only
    rw [Slot.arm_live live]
  refine ⟨?_, congrArg Prod.snd equal⟩
  rw [equal]
  have still : (w.slot.feed (.arm buffer)).cancelled = false := live
  have hears := (Slot.completes still).hears still
  have lends : Custody False { w with slot := w.slot.feed (.arm buffer) } [] :=
    .pending active live rfl
  refine registry.amends amends_setSlot seen ?_ fun k other given => other given
  rw [none]
  exact lends.heard hears

end Step

-- The oldest completion of a watch. If it is not the last one, then either the watch is being given up
-- anyway, or it was the only one and the buffer is with the loop now.
theorem Custody.next {status : Status} (custody : Custody lent w (status :: statuses))
    (other : status.isAborted = false) :
    (w.state = .active ∧ w.slot.cancelled = false ∧ w.slot.armed = none ∧ statuses = []) ∨
      w.state ≠ .active ∧ Custody False w statuses := by
  generalize all : status :: statuses = queue at custody
  cases custody with
  | pending => cases all
  | completed active live done =>
    cases all
    exact .inl ⟨active, live, done, rfl⟩
  | served => cases all
  | @closing before b ending cancelled each =>
    cases before with
    | nil =>
      cases all
      cases other
    | cons first more =>
      cases all
      exact .inr ⟨by simp [ending], .closing ending cancelled fun s listed => each s (.tail _ listed)⟩

theorem Custody.last {b : Option Buffer} (custody : Custody lent w (.aborted b :: statuses)) :
    w.state = .cancelling ∧ statuses = [] := by
  generalize all : Status.aborted b :: statuses = queue at custody
  cases custody with
  | pending => cases all
  | completed _ _ _ other =>
    cases all
    cases other
  | served => cases all
  | @closing before b ending _ each =>
    cases before with
    | nil =>
      cases all
      exact ⟨ending, rfl⟩
    | cons first more =>
      cases all
      cases each _ List.mem_cons_self

theorem statusesOf_pop (queue : m.completions = c :: rest) : m.statusesOf k =
    if k = c.handle then c.status :: ({ m with completions := rest } : Monitor).statusesOf k
    else ({ m with completions := rest } : Monitor).statusesOf k := by
  unfold statusesOf
  rw [queue]
  by_cases same : k = c.handle
  · simp [same]
  · simp [same, Ne.symm same]

theorem Registry.known (registry : Registry out m) (listed : c ∈ m.completions) :
    ∃ w, m.watch? c.handle = some w := by
  cases seen : m.watch? c.handle with
  | some w => exact ⟨w, rfl⟩
  | none =>
    have queued : c.status ∈ m.statusesOf c.handle :=
      List.mem_map_of_mem (List.mem_filter.mpr ⟨listed, by simp⟩)
    rw [registry.unknown c.handle seen] at queued
    cases queued

theorem length_others {ws : List Watch} (distinct : (ws.map Watch.handle).Nodup) (listed : w ∈ ws) :
    (ws.filter (·.handle != w.handle)).length = ws.length - 1 := by
  have one : ws.countP (·.handle == w.handle) = 1 := by
    have counted := List.count_eq_one_of_mem distinct (List.mem_map_of_mem listed)
    rwa [List.count, List.countP_map] at counted
  have all := @List.length_eq_countP_add_countP Watch (·.handle == w.handle) ws
  rw [one] at all
  rw [← List.countP_eq_length_filter, all, Nat.add_sub_cancel_left]
  exact List.countP_congr fun v _ => by simp

section Serve

variable (registry : Registry out m) (queue : m.completions = c :: rest)
include registry queue

theorem Registry.pop (other : c.status.isAborted = false) :
    Registry (fun k => out k ∨ k = c.handle) { m with completions := rest } := by
  obtain ⟨w, seen⟩ := registry.known (c := c) (queue ▸ List.mem_cons_self)
  refine registry.of_others (h := c.handle) registry.counted registry.distinct (fun k apart => ⟨rfl, ?_⟩)
    (fun k _ => .inl) (fun v there => ?_) fun none => ?_
  · rw [statusesOf_pop queue, if_neg apart]
  · obtain rfl : w = v := Option.some.inj (seen.symm.trans there)
    have custody := registry.custody c.handle w seen
    rw [statusesOf_pop queue, if_pos rfl] at custody
    rcases custody.next other with ⟨active, live, done, alone⟩ | ⟨_, custody⟩
    · rw [alone]
      exact .served (.inr rfl) active live done
    · exact custody.weaken False.elim
  · rw [show m.watch? c.handle = Option.none from none] at seen
    cases seen

theorem Registry.skip (other : c.status.isAborted = false) (inactive : m.isActive c.handle = false) :
    Registry out { m with completions := rest } := by
  have popped := (registry.pop queue other).settled (h := c.handle) inactive
  exact popped.weaken fun _ both => both.1.resolve_right both.2

theorem Registry.alone (other : c.status.isAborted = false) (seen : m.watch? c.handle = some w)
    (active : w.state = .active) : w.slot.cancelled = false ∧
      ({ m with completions := rest } : Monitor).statusesOf c.handle = [] := by
  have custody := registry.custody c.handle w seen
  rw [statusesOf_pop queue, if_pos rfl] at custody
  rcases custody.next other with ⟨_, live, _, alone⟩ | ⟨inactive, _⟩
  · exact ⟨live, alone⟩
  · exact absurd active inactive

theorem Registry.release {b : Option Buffer} (aborted : c.status = .aborted b) :
    Registry out ({ m with completions := rest }.release c.handle) := by
  obtain ⟨w, seen⟩ := registry.known (c := c) (queue ▸ List.mem_cons_self)
  have named : w.handle = c.handle := handle_of_watch? seen
  have custody := registry.custody c.handle w seen
  rw [statusesOf_pop queue, if_pos rfl, aborted] at custody
  have equal : ({ m with completions := rest } : Monitor).release c.handle =
      { m with
        completions := rest, watches := m.watches.filter (·.handle != c.handle), requests := m.requests - 1 } := by
    have present : (({ m with completions := rest } : Monitor).watch? c.handle).isSome = true :=
      Option.isSome_iff_exists.mpr ⟨w, seen⟩
    unfold Monitor.release
    rw [if_pos present]
  have found (k : Handle) := @watch?_release { m with completions := rest } c.handle k
  refine registry.of_others (h := c.handle) ?_ ?_ (fun k apart => ⟨?_, ?_⟩) (fun _ _ given => given)
    (fun v there => ?_) fun _ => ?_
  · rw [equal]
    show m.requests - 1 = (m.watches.filter _).length
    rw [registry.counted, ← named, length_others registry.distinct (List.mem_of_find?_eq_some seen)]
  · rw [equal]
    exact (List.filter_sublist.map Watch.handle).nodup registry.distinct
  · rw [found, if_neg apart]
    rfl
  · rw [equal, statusesOf_pop queue, if_neg apart]
    rfl
  · rw [found, if_pos rfl] at there
    cases there
  · rw [equal]
    exact custody.last.2

end Serve

section Completion

variable (registry : Registry (· = w.handle) m) (seen : m.watch? w.handle = some w)
  (active : w.state = .active) (live : w.slot.cancelled = false) (none : m.statusesOf w.handle = [])
include registry seen active live none

theorem Registry.onNotifications : Registry.Whole (m.onNotifications d w buffer) := by
  obtain ⟨armed, accepted⟩ := registry.arm buffer.take.2 seen active live none
  show Registry.Whole (failIf _ w.handle (m.arm w.handle buffer.take.2).2)
  rw [accepted]
  exact armed.deliver

theorem Registry.onOverflow : Registry.Whole (m.onOverflow d w buffer) := by
  obtain ⟨armed, accepted⟩ := registry.arm buffer seen active live none
  unfold Monitor.onOverflow
  simp only [accepted, failIf]
  split
  · exact armed.deliver
  · exact armed.fail.keep

end Completion

theorem Registry.onFailure (registry : Registry (· = w.handle) m) :
    Registry.Whole (m.onFailure d w error) := by
  have before : Registry (· = w.handle) (if d.isDir w.snapshot.root then m
      else m.deliver w.handle (Reconcile.batch d (m.scopeOf w) w.snapshot [⟨.removed, .empty⟩])) := by
    split
    · exact registry
    · exact registry.deliver
  exact before.fail.whole

theorem Registry.onCompletion (registry : Registry.Whole m) (queue : m.completions = c :: rest) :
    Registry.Whole ({ m with completions := rest }.onCompletion d c) := by
  obtain ⟨w, seen⟩ := registry.known (c := c) (queue ▸ List.mem_cons_self)
  have named : w.handle = c.handle := handle_of_watch? seen
  have seen' : ({ m with completions := rest } : Monitor).watch? c.handle = some w := seen
  rcases c.status.aborted_or_other with ⟨b, status⟩ | other
  · rw [onCompletion_aborted status]
    exact registry.release queue status
  · by_cases active : w.state = .active
    · -- the read of the watch is this completion, so its buffer is with the loop now
      obtain ⟨live, alone⟩ := registry.alone queue other seen active
      have popped : Registry (· = w.handle) { m with completions := rest } :=
        (registry.pop queue other).weaken fun k given => (given.resolve_left id).trans named.symm
      rw [← named] at seen' alone
      unfold Monitor.onCompletion
      rw [← named, seen']
      cases status : c.status with
      | notifications buffer =>
        simp only [if_pos active]
        exact popped.onNotifications seen' active live alone
      | overflow buffer =>
        simp only [if_pos active]
        exact popped.onOverflow seen' active live alone
      | failed buffer e =>
        simp only [if_pos active]
        exact popped.onFailure
      | aborted b => simp [status, Status.isAborted] at other
    · have inactive : ({ m with completions := rest } : Monitor).isActive c.handle = false := by
        simpa [isActive_of_seen seen'] using active
      rw [onCompletion_inactive other inactive]
      exact registry.skip queue other inactive

theorem armed_signals {slot : Slot} (signals : List Signal) (live : slot.cancelled = false)
    (idle : slot.armed = none) : (signals.foldl (fun slot s => (slot.receive s).1) slot).cancelled = false ∧
      (signals.foldl (fun slot s => (slot.receive s).1) slot).armed = none := by
  induction signals generalizing slot with
  | nil => exact ⟨live, idle⟩
  | cons s rest ih =>
    have heard := @Slot.hears_receive slot s
    generalize (slot.receive s).2.toList = new at heard
    cases heard with
    | keeps armed cancelled => exact ih (cancelled.trans live) (armed.trans idle)
    | returns _ armed =>
      rw [idle] at armed
      cases armed

theorem Registry.enter (registry : Registry.Whole m) (unknown : m.watch? w.handle = none)
    (active : w.state = .active) (live : w.slot.cancelled = false) (idle : w.slot.armed = none) :
    Registry (· = w.handle) (m.enter w) := by
  refine registry.of_others (h := w.handle) ?_ ?_ (fun k other => ⟨?_, rfl⟩) (fun k _ => False.elim)
    (fun v seen => ?_) fun _ => registry.unknown w.handle unknown
  · simp [Monitor.enter, registry.counted]
  · show ((m.watches ++ [w]).map Watch.handle).Nodup
    rw [List.map_append, List.nodup_append]
    refine ⟨registry.distinct, List.nodup_singleton w.handle, fun k listed j last same => ?_⟩
    obtain ⟨v, there, named⟩ := List.mem_map.mp listed
    have absent := List.find?_eq_none.mp unknown v there
    simp [named, same, List.mem_singleton.mp last] at absent
  · rw [watch?_enter unknown, if_neg other]
  · rw [watch?_enter unknown, if_pos rfl] at seen
    cases seen
    show Custody _ _ (m.statusesOf w.handle)
    rw [registry.unknown w.handle unknown]
    exact .served rfl active live idle

-- If the scan fails, the watch is given up at once, and still stays until that is confirmed.
theorem Registry.openWatch {root : Path} {recursive : Bool} {signals : List Signal} (registry : Registry.Whole m)
    (unknown : m.watch? h = none) : Registry.Whole (m.openWatch d h root recursive reactions signals) := by
  have running : (Slot.fresh m.settings.bufferCapacity.toNat).cancelled = false := rfl
  obtain ⟨live, idle⟩ := armed_signals signals running rfl
  have entered : Registry (· = h) (m.enter (m.opened h root recursive reactions signals)) :=
    registry.enter (w := m.opened h root recursive reactions signals) unknown rfl live idle
  have seen : (m.enter (m.opened h root recursive reactions signals)).watch? h =
      some (m.opened h root recursive reactions signals) := (watch?_enter unknown).trans (if_pos rfl)
  have armed := (entered.arm .empty seen rfl live (registry.unknown h unknown)).1
  rcases openWatch_cases m d h root recursive reactions signals with ⟨_, s, _, equal⟩ | ⟨e, equal⟩
  · rw [equal]
    exact armed.setSnapshot.hears hears_tell
  · rw [equal]
    exact armed.cancel.keep.hears hears_tell

theorem Registry.register {path : Path} {recursive : Bool} (registry : Registry.Whole m)
    (unknown : m.watch? h = none) :
    Registry.Whole (m.register d backend h path recursive reactions).1 := by
  unfold Monitor.register
  split
  · exact registry.hears hears_tell
  · split
    · exact registry.hears hears_tell
    · split
      · exact registry.hears hears_tell
      · dsimp only
        split
        · exact registry.hears hears_tell
        · exact registry.openWatch unknown

def givenUp (m : Monitor) : Monitor :=
  ({ m with running := false, commands := [] }.refuseQueued m.commands).cancelAll

theorem release_completions {two : List Completion} : ({ m with completions := two } : Monitor).release h =
    { m.release h with completions := two } := by
  have same : ({ m with completions := two } : Monitor).watch? h = m.watch? h := rfl
  unfold Monitor.release
  rw [same]
  cases (m.watch? h).isSome with
  | true => rfl
  | false => rfl

theorem releaseAborted_completions {one two : List Completion} :
    ({ m with completions := two } : Monitor).releaseAborted one =
      { m.releaseAborted one with completions := two } := by
  induction one generalizing m with
  | nil => rfl
  | cons c rest ih =>
    unfold releaseAborted
    split
    · rw [release_completions]
      exact ih
    · exact ih

theorem drain_eq : m.drain = { m.givenUp.releaseAborted m.givenUp.completions with completions := [] } :=
  releaseAborted_completions

-- Releasing goes through the queue as the loop would have done, completion by completion.
theorem Registry.releaseAborted {one two : List Completion}
    (registry : Registry.Whole { m with completions := one ++ two }) (ended : ∀ h, m.isActive h = false) :
    Registry.Whole { m.releaseAborted one with completions := two } := by
  induction one generalizing m with
  | nil => exact registry
  | cons c rest ih =>
    have queue : ({ m with completions := (c :: rest) ++ two } : Monitor).completions = c :: (rest ++ two) := rfl
    unfold Monitor.releaseAborted
    split
    · rename_i b status
      have released : Registry.Whole { m.release c.handle with completions := rest ++ two } := by
        rw [← release_completions]
        exact registry.release queue status
      exact ih released fun h => (evolves_release.silent (ended h)).1
    · rename_i other
      refine ih (registry.skip queue ?_ (ended c.handle)) ended
      exact c.status.aborted_or_other.resolve_left fun ⟨b, status⟩ => other b status

theorem Registry.givenUp (registry : Registry.Whole m) : Registry.Whole m.givenUp := by
  have stopped : Hears m { m with running := false, commands := [] } := .of_same rfl rfl rfl
  exact ((registry.hears stopped).hears (hears_refuseQueued m.commands)).cancels _

theorem Registry.drain (registry : Registry.Whole m) : Registry.Whole m.drain := by
  rw [drain_eq]
  refine Registry.releaseAborted ?_ fun h => isActive_cancelAll
  rw [List.append_nil]
  exact registry.givenUp

theorem Registry.onCommand {c : Command} (registry : Registry.Whole m)
    (unknown : ∀ h, c.registers = some h → m.watch? h = none) :
    Registry.Whole (m.onCommand d backend c).1 := by
  cases c with
  | register h path recursive reactions => exact registry.register (unknown h rfl)
  | unregister h => exact registry.cancel.keep
  | stop =>
    have refusing : Hears m { m with accepting := false } := .of_same rfl rfl rfl
    exact (registry.hears refusing).cancels _

theorem Registry.next {posted : List Handle} {event : Event} (orderly : Orderly posted m)
    (taken : m.take? event = some m') (registry : Registry.Whole m) : Registry.Whole m' := by
  cases taken_of_take? taken with
  | post => exact registry.hears (.of_same rfl rfl rfl)
  | signal => exact registry.hears hears_signal
  | complete queue => exact registry.onCompletion queue
  | @serve c d backend rest queue =>
    have popped : Hears m { m with commands := rest } := .of_same rfl rfl rfl
    exact (registry.hears popped).onCommand fun h asks => orderly.unknown (mem_queued queue asks)
  | drain => exact registry.drain

theorem watch?_of_mem (distinct : (m.watches.map Watch.handle).Nodup) (listed : w ∈ m.watches) :
    m.watch? w.handle = some w := by
  unfold watch?
  generalize m.watches = ws at distinct listed
  induction ws with
  | nil => cases listed
  | cons v rest ih =>
    obtain ⟨fresh, later⟩ := List.nodup_cons.mp distinct
    rcases List.mem_cons.mp listed with rfl | behind
    · simp
    · have apart : v.handle ≠ w.handle := fun same => fresh (same ▸ List.mem_map_of_mem behind)
      rw [List.find?_cons_of_neg (by simpa using apart)]
      exact ih later behind

section Run

variable {settings : Settings} {events : List Event}

theorem registry_of_run (distinct : (registered events).Nodup) (ran : (start settings).run events = some m) :
    Registry.Whole m :=
  (Orderly.start settings).keeps Registry.next distinct ran (Registry.start settings)

-- Over every run: the requests are as many as the watches, each active watch has one read that is either
-- pending or completed, each other one has its last completion queued, and nothing else is queued.
theorem registry_accounted (distinct : (registered events).Nodup)
    (ran : (start settings).run events = some m) :
    m.requests = m.watches.length ∧ (m.watches.map Watch.handle).Nodup ∧
      (∀ w ∈ m.watches, w.state = .active → w.slot.cancelled = false ∧
        (w.slot.armed.isSome = true ∧ m.statusesOf w.handle = [] ∨
          w.slot.armed = none ∧ ∃ status, m.statusesOf w.handle = [status] ∧ status.isAborted = false)) ∧
      (∀ w ∈ m.watches, w.state = .cancelling → w.slot.cancelled = true ∧ ∃ before b,
        m.statusesOf w.handle = before ++ [.aborted b] ∧ ∀ status ∈ before, status.isAborted = false) ∧
      (∀ c ∈ m.completions, ∃ w ∈ m.watches, w.handle = c.handle ∧ 0 < m.requests) ∧
      m.drain = { m.givenUp.releaseAborted m.givenUp.completions with completions := [] } ∧
      ∀ one c two, m.givenUp.completions = one ++ c :: two → c.status.isAborted = true →
        ∃ w ∈ (m.givenUp.releaseAborted one).watches, w.handle = c.handle ∧
          0 < (m.givenUp.releaseAborted one).requests := by
  have registry := registry_of_run distinct ran
  have served {m : Monitor} {c : Completion} (registry : Registry.Whole m) (listed : c ∈ m.completions) :
      ∃ w ∈ m.watches, w.handle = c.handle ∧ 0 < m.requests := by
    obtain ⟨w, seen⟩ := registry.known listed
    exact ⟨w, List.mem_of_find?_eq_some seen, handle_of_watch? seen, requests_pos registry seen⟩
  have custody {w : Watch} (listed : w ∈ m.watches) : Custody False w (m.statusesOf w.handle) :=
    registry.custody w.handle w (watch?_of_mem registry.distinct listed)
  refine ⟨registry.counted, registry.distinct, fun w listed active => ?_, fun w listed ending => ?_,
    fun c listed => served registry listed, drain_eq, fun one c two queue _ => ?_⟩
  · have custody := custody listed
    generalize m.statusesOf w.handle = statuses at custody
    cases custody with
    | pending _ live armed => exact ⟨live, .inl ⟨armed, rfl⟩⟩
    | completed _ live done other => exact ⟨live, .inr ⟨done, _, rfl, other⟩⟩
    | served given => exact given.elim
    | closing ending =>
      rw [active] at ending
      cases ending
  · have custody := custody listed
    generalize m.statusesOf w.handle = statuses at custody
    cases custody with
    | closing _ cancelled before => exact ⟨cancelled, _, _, rfl, before⟩
    | pending active =>
      rw [ending] at active
      cases active
    | completed active =>
      rw [ending] at active
      cases active
    | served given => exact given.elim
  · have whole : Registry.Whole { m.givenUp with completions := one ++ c :: two } := queue ▸ registry.givenUp
    have reached := whole.releaseAborted fun h => isActive_cancelAll
    exact @served { m.givenUp.releaseAborted one with completions := c :: two } c reached List.mem_cons_self

-- A watch whose records came in before it was given up: they are still queued, and then its end.
theorem registry_accounted_closing : ∃ m w,
    (start .defaults).run (Sample.opening ++ [Sample.leaving]) = some m ∧ m.watches = [w] ∧
      w.state = .cancelling ∧ m.requests = 1 ∧ ∃ before b,
        m.statusesOf w.handle = before ++ [.aborted b] ∧ ∀ status ∈ before, status.isAborted = false := by
  have distinct : (registered (Sample.opening ++ [Sample.leaving])).Nodup := by decide
  have accounted := @registry_accounted _ .defaults _ distinct rfl
  refine ⟨_, _, rfl, rfl, rfl, accounted.1, ?_⟩
  exact (accounted.2.2.2.1 _ List.mem_cons_self rfl).2

end Run

end DirWatch.Monitor
