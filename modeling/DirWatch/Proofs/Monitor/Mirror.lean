import DirWatch.Proofs.Monitor.Heard
import DirWatch.Proofs.Monitor.Protocol

namespace DirWatch

def Notice.changes : Notice → List Change
  | .changed _ cs => cs
  | _ => []

namespace Monitor

open Reconcile Snapshot

variable {m m' : Monitor} {h k : Handle} {w : Watch} {d : Disk} {backend : Backend} {notice : Notice}
  {reactions : List Reaction} {error : MonitorError} {outcome : Outcome} {buffer : Buffer} {s t u : Snapshot}
  {cs ds : List Change}

def reported (m : Monitor) (h : Handle) : List Change := (m.noticesOf h).flatMap Notice.changes

-- The changes `cs` lead from the snapshot `s` that was reported to the snapshot `t` that is kept.
structure Told (s : Snapshot) (cs : List Change) (t : Snapshot) : Prop where
  keyed : s.Keyed
  tracked : ∃ root, t.Tracked root
  leads : (s.replayAll cs).Matches t

theorem Told.agrees (told : Told s cs t) : (s.replayAll cs).agrees t = true := by
  obtain ⟨root, tracked⟩ := told.tracked
  exact (agrees_iff told.keyed.replayAll tracked.keyed).mpr told.leads

theorem Told.next (told : Told s cs t)
    (step : ∀ root, t.Tracked root → Replays t ds u ∧ u.Tracked root) : Told s (cs ++ ds) u := by
  obtain ⟨root, tracked⟩ := told.tracked
  obtain ⟨replays, tracked⟩ := step root tracked
  refine ⟨told.keyed, ⟨root, tracked⟩, ?_⟩
  rw [replayAll_append]
  exact (told.leads.replayAll ds).trans replays.leads

theorem told_scan {scope : Scope} {root : Path} (scanned : scan d scope root = .ok s) : Told s [] s :=
  ⟨(tracked_scan scanned).keyed, ⟨root, tracked_scan scanned⟩, .refl s⟩

-- A watch whose receiver was given a snapshot has told everything since.
def MirroredAt (m : Monitor) (h : Handle) : Prop :=
  ∀ w s, m.watch? h = some w → .registered h s ∈ m.noticesOf h → Told s (m.reported h) w.snapshot

def Mirrored (m : Monitor) : Prop := ∀ h, m.MirroredAt h

-- Nothing is told, and no snapshot changes.
structure Still (m m' : Monitor) : Prop where
  notices : m'.notices = m.notices
  snapshots : ∀ h w, m'.watch? h = some w → ∃ v, m.watch? h = some v ∧ w.snapshot = v.snapshot

theorem Still.refl (m : Monitor) : Still m m := ⟨rfl, fun _ w seen => ⟨w, seen, rfl⟩⟩

theorem Still.trans {m'' : Monitor} (one : Still m m') (two : Still m' m'') : Still m m'' := by
  refine ⟨two.notices.trans one.notices, fun h w seen => ?_⟩
  obtain ⟨v, between, same⟩ := two.snapshots h w seen
  obtain ⟨u, before, equal⟩ := one.snapshots h v between
  exact ⟨u, before, same.trans equal⟩

theorem Hears.still (hears : Hears m m') (notices : m'.notices = m.notices) : Still m m' := by
  refine ⟨notices, fun h w seen => ?_⟩
  obtain ⟨v, _, before, same, _⟩ := hears.before seen
  exact ⟨v, before, by rw [same]⟩

theorem Amends.still {f : Watch → Watch} {new : List Status} (amends : Amends h f new m m')
    (keeps : ∀ w, (f w).snapshot = w.snapshot) (notices : m'.notices = m.notices) : Still m m' := by
  refine ⟨notices, fun k w seen => ?_⟩
  rw [amends.watches] at seen
  split at seen
  · rename_i same
    obtain ⟨v, before, rfl⟩ := Option.map_eq_some_iff.mp seen
    exact ⟨v, same ▸ before, keeps v⟩
  · exact ⟨w, seen, rfl⟩

theorem still_arm : Still m (m.arm h buffer).1 := by
  have notices : (m.arm h buffer).1.notices = m.notices := quiet_arm.notices
  unfold Monitor.arm at notices ⊢
  split at notices
  · split at notices
    · exact amends_setSlot.still (fun _ => rfl) notices
    · exact .refl m
  · exact .refl m

theorem still_cancel : Still m (m.cancel h) := by
  cases active : m.isActive h with
  | false =>
    rw [cancel_of_inactive active]
    exact .refl m
  | true =>
    obtain ⟨w, seen⟩ := watch_of_active active
    have active : w.state = .active := by simpa [isActive_of_seen seen] using active
    exact (amends_cancel seen active).still (fun _ => rfl) cancel_frame.2.2

theorem still_release : Still m (m.release h) := by
  refine ⟨?_, fun k w seen => ?_⟩
  · unfold release
    split <;> rfl
  · rw [watch?_release] at seen
    split at seen
    · cases seen
    · exact ⟨w, seen, rfl⟩

theorem still_cancels (handles : List Handle) : Still m (handles.foldl cancel m) := by
  induction handles generalizing m with
  | nil => exact .refl m
  | cons h rest ih => exact still_cancel.trans ih

theorem still_cancelAll : Still m m.cancelAll := still_cancels _

theorem still_releaseAborted (cs : List Completion) : Still m (m.releaseAborted cs) := by
  induction cs generalizing m with
  | nil => exact .refl m
  | cons c rest ih =>
    unfold releaseAborted
    split
    · exact still_release.trans ih
    · exact ih

theorem still_drain : Still ({ m with running := false, commands := [] }.refuseQueued m.commands) m.drain := by
  unfold drain
  refine still_cancelAll.trans (Still.trans ?_ (still_releaseAborted _))
  exact ⟨rfl, fun h w seen => ⟨w, seen, rfl⟩⟩

theorem mirroredAt_untold (untold : m.noticesOf h = []) : m.MirroredAt h := by
  intro w s _ listed
  rw [untold] at listed
  cases listed

theorem mirrored_start (settings : Settings) : Mirrored (start settings) := fun _ => mirroredAt_untold rfl

theorem watch?_arm (buffer : Buffer) (seen : m.watch? h = some w) :
    ∃ slot, (m.arm h buffer).1.watch? h = some { w with slot } := by
  unfold Monitor.arm
  rw [seen]
  dsimp only
  split
  · rename_i slot status _
    refine ⟨slot, ?_⟩
    rw [amends_setSlot.watches, if_pos rfl, seen]
    rfl
  · exact ⟨w.slot, seen⟩

section Step

variable (mirrored : Mirrored m)
include mirrored

theorem Mirrored.still (still : Still m m') : Mirrored m' := by
  intro h w s seen listed
  have told : m'.noticesOf h = m.noticesOf h := congrArg _ still.notices
  obtain ⟨v, before, same⟩ := still.snapshots h w seen
  rw [reported, told, same]
  exact mirrored h v s before (told ▸ listed)

theorem Mirrored.tell (last : notice.isLast = true) : Mirrored (m.tell reactions notice) := by
  intro h w s seen listed
  obtain ⟨v, _, before, same, _⟩ := hears_tell.before seen
  have quiet : notice.changes = [] := by cases notice <;> first | rfl | cases last
  have other : notice ≠ .registered h s := by
    rintro rfl
    cases last
  rw [noticesOf_tell] at listed
  rw [same, reported, noticesOf_tell]
  split
  · rename_i here
    rw [if_pos here] at listed
    have old := mirrored h v s before (by simpa [Ne.symm other] using listed)
    simpa [reported, quiet] using old
  · rename_i apart
    rw [if_neg apart] at listed
    exact mirrored h v s before listed

theorem Mirrored.refuse : Mirrored (m.refuse h reactions error) := mirrored.tell rfl

theorem Mirrored.refuseQueued (cs : List Command) : Mirrored (m.refuseQueued cs) := by
  induction cs generalizing m with
  | nil => exact mirrored
  | cons c rest ih =>
    cases c with
    | register h path recursive reactions => exact ih mirrored.refuse
    | unregister => exact ih mirrored
    | stop => exact ih mirrored

theorem Mirrored.fail : Mirrored (m.fail h error) := by
  unfold Monitor.fail
  split
  · rename_i active
    obtain ⟨w, seen⟩ := watch_of_active active
    have told : m.tellWatch (.monitoringFailed h error) = m.tell w.reactions (.monitoringFailed h error) :=
      tellWatch_eq seen
    rw [told]
    exact (mirrored.tell rfl).still still_cancel
  · exact mirrored

theorem Mirrored.failIf {e : Option MonitorError} : Mirrored (m.failIf h e) := by
  cases e with
  | none => exact mirrored
  | some e => exact mirrored.fail

theorem Mirrored.rootRemoved : Mirrored (m.rootRemoved h) := by
  unfold Monitor.rootRemoved
  split
  · exact mirrored.fail
  · exact mirrored

-- A watch takes a snapshot over, and its receiver is told before anything else can happen to the watch.
theorem Mirrored.takeOver (more : List Notice) (seen : m.watch? h = some w)
    (hears : Hears (m.setSnapshot h t) m')
    (notices : ∀ k, m'.noticesOf k = if h = k then m.noticesOf k ++ more else m.noticesOf k)
    (told : ∀ s, .registered h s ∈ m.noticesOf h ++ more →
      Told s (m.reported h ++ more.flatMap Notice.changes) t) : Mirrored m' := by
  intro k v s there listed
  obtain ⟨x, _, before, same, _⟩ := hears.before there
  rw [amends_setSnapshot.watches] at before
  rw [same, reported]
  rw [notices] at listed ⊢
  by_cases here : k = h
  · subst here
    rw [if_pos rfl] at before listed ⊢
    rw [seen] at before
    obtain rfl : { w with snapshot := t } = x := Option.some.inj before
    rw [List.flatMap_append]
    exact told s listed
  · rw [if_neg here] at before
    rw [if_neg (Ne.symm here)] at listed ⊢
    exact mirrored k x s before listed

theorem Mirrored.deliver (seen : m.watch? h = some w) (active : w.state = .active)
    (step : ∀ root, w.snapshot.Tracked root →
      Replays w.snapshot outcome.changes outcome.snapshot ∧ outcome.snapshot.Tracked root) :
    Mirrored (m.deliver h outcome) := by
  have found : (m.setSnapshot h outcome.snapshot).watch? h = some { w with snapshot := outcome.snapshot } := by
    rw [amends_setSnapshot.watches, if_pos rfl, seen]
    rfl
  have told : Mirrored (if outcome.changes.isEmpty then m.setSnapshot h outcome.snapshot
      else (m.setSnapshot h outcome.snapshot).tellWatch (.changed h outcome.changes)) := by
    split
    · rename_i none
      rw [List.isEmpty_iff.mp none] at step
      refine mirrored.takeOver [] seen (.refl _) (fun k => ?_) fun s listed => ?_
      · rw [List.append_nil, ite_self]
        rfl
      · exact (mirrored h w s seen (by simpa using listed)).next step
    · rw [tellWatch_eq found]
      refine mirrored.takeOver [.changed h outcome.changes] seen hears_tell (fun k => noticesOf_tell)
        fun s listed => ?_
      rw [show [Notice.changed h outcome.changes].flatMap Notice.changes = outcome.changes by
        simp [Notice.changes]]
      exact (mirrored h w s seen (by simpa using listed)).next step
  unfold Monitor.deliver
  dsimp only
  rw [if_pos (by simp [isActive_of_seen found, active])]
  split
  · exact told.rootRemoved
  · exact told

theorem Mirrored.welcome {scope : Scope} {root : Path} (seen : m.watch? h = some w)
    (untold : m.noticesOf h = []) (scanned : scan d scope root = .ok t) :
    Mirrored ((m.setSnapshot h t).tell reactions (.registered h t)) := by
  refine mirrored.takeOver [.registered h t] seen hears_tell (fun k => noticesOf_tell) fun s listed => ?_
  rw [untold] at listed
  cases List.mem_singleton.mp listed
  rw [reported, untold]
  exact told_scan scanned

theorem Mirrored.onNotifications (seen : m.watch? w.handle = some w) (active : w.state = .active) :
    Mirrored (m.onNotifications d w buffer) := by
  obtain ⟨slot, armed⟩ := watch?_arm buffer.take.2 seen
  have lent : Mirrored (m.arm w.handle buffer.take.2).1 := mirrored.still still_arm
  exact (lent.deliver armed active fun root tracked => batch_replays tracked _).failIf

theorem Mirrored.onOverflow (seen : m.watch? w.handle = some w) (active : w.state = .active) :
    Mirrored (m.onOverflow d w buffer) := by
  obtain ⟨slot, armed⟩ := watch?_arm buffer seen
  have lent : Mirrored (m.arm w.handle buffer).1 := mirrored.still still_arm
  refine Mirrored.failIf ?_
  split
  · rename_i outcome ended
    exact lent.deliver armed active fun root tracked => rescan_replays tracked ended
  · exact lent.fail

theorem Mirrored.onFailure (seen : m.watch? w.handle = some w) (active : w.state = .active) :
    Mirrored (m.onFailure d w error) := by
  refine Mirrored.fail ?_
  split
  · exact mirrored
  · exact mirrored.deliver seen active fun root tracked => batch_replays tracked _

theorem Mirrored.onCompletion {c : Completion} : Mirrored (m.onCompletion d c) := by
  unfold Monitor.onCompletion
  split
  · exact mirrored.still still_release
  · exact mirrored
  · rename_i w seen _
    have named : w.handle = c.handle := handle_of_watch? seen
    rw [← named] at seen
    split
    · rename_i active
      split
      · exact mirrored.onNotifications seen active
      · exact mirrored.onOverflow seen active
      · exact mirrored.onFailure seen active
      · exact mirrored
    · exact mirrored

theorem Mirrored.enter (unknown : m.watch? w.handle = none) (untold : m.noticesOf w.handle = []) :
    Mirrored (m.enter w) := by
  intro k
  by_cases here : k = w.handle
  · subst here
    exact mirroredAt_untold untold
  · intro v s seen listed
    rw [watch?_enter unknown, if_neg here] at seen
    exact mirrored k v s seen listed

theorem Mirrored.openWatch {root : Path} {recursive : Bool} {signals : List Signal}
    (unknown : m.watch? h = none) (untold : m.noticesOf h = []) :
    Mirrored (m.openWatch d h root recursive reactions signals) := by
  generalize fresh : m.opened h root recursive reactions signals = v
  have named : v.handle = h := fresh ▸ rfl
  have entered : Mirrored (m.enter v) := mirrored.enter (named ▸ unknown) (named ▸ untold)
  have present : (m.enter v).watch? h = some v := (watch?_enter (named ▸ unknown)).trans (if_pos named.symm)
  obtain ⟨lent, found⟩ := watch?_arm .empty present
  have armed : Mirrored ((m.enter v).arm h .empty).1 := entered.still still_arm
  have silent : ((m.enter v).arm h .empty).1.noticesOf h = [] := (quiet_arm.noticesOf h).trans untold
  rcases openWatch_cases m d h root recursive reactions signals with ⟨_, s, scanned, equal⟩ | ⟨e, equal⟩
  · rw [equal, fresh]
    exact armed.welcome found silent scanned
  · rw [equal, fresh]
    exact (armed.still still_cancel).refuse

theorem Mirrored.register {path : Path} {recursive : Bool} (unknown : m.watch? h = none)
    (untold : m.noticesOf h = []) : Mirrored (m.register d backend h path recursive reactions).1 := by
  unfold Monitor.register
  split
  · exact mirrored.refuse
  · split
    · exact mirrored.refuse
    · split
      · exact mirrored.refuse
      · dsimp only
        split
        · exact mirrored.refuse
        · exact mirrored.openWatch unknown untold

theorem Mirrored.onCommand {c : Command} (unknown : ∀ h, c.registers = some h → m.watch? h = none)
    (untold : ∀ h, c.registers = some h → m.noticesOf h = []) :
    Mirrored (m.onCommand d backend c).1 := by
  cases c with
  | register h path recursive reactions => exact mirrored.register (unknown h rfl) (untold h rfl)
  | unregister h => exact mirrored.still still_cancel
  | stop =>
    have refusing : Still m { m with accepting := false } := ⟨rfl, fun h w seen => ⟨w, seen, rfl⟩⟩
    exact mirrored.still (refusing.trans still_cancelAll)

theorem Mirrored.drain : Mirrored m.drain := by
  have stopped : Still m { m with running := false, commands := [] } := ⟨rfl, fun h w seen => ⟨w, seen, rfl⟩⟩
  exact ((mirrored.still stopped).refuseQueued m.commands).still still_drain

end Step

theorem Mirrored.next {posted : List Handle} {event : Event} (orderly : Orderly posted m)
    (taken : m.take? event = some m') (mirrored : Mirrored m) : Mirrored m' := by
  cases taken_of_take? taken with
  | post => exact mirrored
  | signal => exact mirrored.still (hears_signal.still quiet_signal.notices)
  | @complete d c rest =>
    have popped : Mirrored { m with completions := rest } := mirrored
    exact popped.onCompletion
  | @serve c d backend rest queue =>
    have popped : Mirrored { m with commands := rest } := mirrored
    refine popped.onCommand (fun h asks => ?_) fun h asks => ?_
    · exact orderly.unknown (mem_queued queue asks)
    · exact orderly.waiting h (mem_queued queue asks)
  | drain => exact mirrored.drain

def Keeps (m m' : Monitor) : Prop := m'.watches.map Watch.handle = m.watches.map Watch.handle

theorem Keeps.refl (m : Monitor) : Keeps m m := rfl

theorem Keeps.trans {m'' : Monitor} (one : Keeps m m') (two : Keeps m' m'') : Keeps m m'' :=
  Eq.trans two one

theorem Keeps.watch? (keeps : Keeps m m') (seen : m.watch? h = some w) : ∃ v, m'.watch? h = some v := by
  have listed : h ∈ m.watches.map Watch.handle :=
    List.mem_map.mpr ⟨w, List.mem_of_find?_eq_some seen, handle_of_watch? seen⟩
  rw [← keeps] at listed
  obtain ⟨v, there, named⟩ := List.mem_map.mp listed
  exact Option.isSome_iff_exists.mp (List.find?_isSome.mpr ⟨v, there, by simp [named]⟩)

theorem keeps_tellWatch : Keeps m (m.tellWatch notice) := hears_tellWatch.handles

theorem keeps_arm : Keeps m (m.arm h buffer).1 := by
  unfold Monitor.arm
  split
  · split
    · exact amends_setSlot.handles
    · exact .refl m
  · exact .refl m

theorem keeps_cancel : Keeps m (m.cancel h) := by
  cases active : m.isActive h with
  | false =>
    rw [cancel_of_inactive active]
    exact .refl m
  | true =>
    obtain ⟨w, seen⟩ := watch_of_active active
    exact (amends_cancel seen (by simpa [isActive_of_seen seen] using active)).handles

theorem keeps_fail : Keeps m (m.fail h error) := by
  unfold Monitor.fail
  split
  · exact keeps_tellWatch.trans keeps_cancel
  · exact .refl m

theorem keeps_failIf {e : Option MonitorError} : Keeps m (m.failIf h e) := by
  cases e with
  | none => exact .refl m
  | some e => exact keeps_fail

theorem keeps_rootRemoved : Keeps m (m.rootRemoved h) := by
  unfold Monitor.rootRemoved
  split
  · exact keeps_fail
  · exact .refl m

theorem keeps_deliver : Keeps m (m.deliver h outcome) := by
  have taken : Keeps m (m.setSnapshot h outcome.snapshot) := amends_setSnapshot.handles
  refine taken.trans ?_
  unfold Monitor.deliver
  dsimp only
  split
  · have told : Keeps (m.setSnapshot h outcome.snapshot)
        (if outcome.changes.isEmpty then m.setSnapshot h outcome.snapshot
          else (m.setSnapshot h outcome.snapshot).tellWatch (.changed h outcome.changes)) := by
      split
      · exact .refl _
      · exact keeps_tellWatch
    split
    · exact told.trans keeps_rootRemoved
    · exact told
  · exact .refl _

theorem keeps_onNotifications : Keeps m (m.onNotifications d w buffer) := by
  have armed : Keeps m (m.arm w.handle buffer.take.2).1 := keeps_arm
  exact (armed.trans keeps_deliver).trans keeps_failIf

theorem keeps_onOverflow : Keeps m (m.onOverflow d w buffer) := by
  have armed : Keeps m (m.arm w.handle buffer).1 := keeps_arm
  refine Keeps.trans (armed.trans ?_) keeps_failIf
  split
  · exact keeps_deliver
  · exact keeps_fail

theorem keeps_onFailure : Keeps m (m.onFailure d w error) := by
  refine Keeps.trans ?_ keeps_fail
  split
  · exact .refl m
  · exact keeps_deliver

theorem keeps_onCompletion {c : Completion} (other : c.status.isAborted = false) :
    Keeps m (m.onCompletion d c) := by
  unfold Monitor.onCompletion
  split
  · rename_i status
    simp [status, Status.isAborted] at other
  · exact .refl m
  · split
    · split
      · exact keeps_onNotifications
      · exact keeps_onOverflow
      · exact keeps_onFailure
      · exact .refl m
    · exact .refl m

theorem Still.told (still : Still m m') (listed : notice ∈ m'.noticesOf h) : notice ∈ m.noticesOf h := by
  rwa [show m'.noticesOf h = m.noticesOf h from congrArg _ still.notices] at listed

theorem Answered.failed_before (answered : Answered m m' k)
    (failed : .monitoringFailed h error ∈ m'.noticesOf h) : .monitoringFailed h error ∈ m.noticesOf h := by
  by_cases here : h = k
  · subst here
    rcases answered.told with ⟨e, told, _⟩ | ⟨s, told⟩
    · simpa [told] using failed
    · simpa [told] using failed
  · rwa [answered.others h here] at failed

theorem failed_before {posted : List Handle} {event : Event} (orderly : Orderly posted m)
    (taken : m.take? event = some m') (other : ∀ d, event ≠ .complete d)
    (failed : .monitoringFailed h error ∈ m'.noticesOf h) : .monitoringFailed h error ∈ m.noticesOf h := by
  cases taken_of_take? taken with
  | post => exact failed
  | signal => exact quiet_signal.noticesOf h ▸ failed
  | complete => exact absurd rfl (other _)
  | @serve c d backend rest queue =>
    have popped : Still m { m with commands := rest } := ⟨rfl, fun h w seen => ⟨w, seen, rfl⟩⟩
    cases c with
    | register k path recursive reactions =>
      have inactive := orderly.inactive (orderly.waiting k (mem_queued queue rfl))
      exact (answered_register (m := { m with commands := rest }) inactive).failed_before failed
    | unregister k => exact (popped.trans still_cancel).told failed
    | stop =>
      have refusing : Still m { m with commands := rest, accepting := false } :=
        ⟨rfl, fun h w seen => ⟨w, seen, rfl⟩⟩
      exact (refusing.trans still_cancelAll).told failed
  | drain =>
    have failed := still_drain.told failed
    obtain ⟨out, inside⟩ := @noticesOf_refuseQueued { m with running := false, commands := [] } h m.commands
      orderly.distinct
    by_cases listed : h ∈ m.commands.filterMap Command.registers
    · rw [inside listed] at failed
      exact (List.mem_append.mp failed).resolve_right (by simp)
    · exact out listed ▸ failed

-- When a failure is told, the watch stays in the registry until its last completion has come.
theorem kept_of_failed {posted : List Handle} {event : Event} (orderly : Orderly posted m)
    (taken : m.take? event = some m') (failed : .monitoringFailed h error ∈ m'.noticesOf h)
    (new : .monitoringFailed h error ∉ m.noticesOf h) : ∃ w, m'.watch? h = some w := by
  cases taken_of_take? taken with
  | @complete d c rest =>
    rcases c.status.aborted_or_other with ⟨b, status⟩ | other
    · rw [onCompletion_aborted status] at failed
      exact absurd (still_release.told failed) new
    · cases active : ({ m with completions := rest } : Monitor).isActive h with
      | true =>
        obtain ⟨w, seen⟩ := watch_of_active active
        exact (keeps_onCompletion other).watch? seen
      | false =>
        -- nothing is told of a watch that is not active, so the failure is an old one
        rw [(evolves_onCompletion.silent active).2] at failed
        exact absurd failed new
  | _ => exact absurd (failed_before orderly taken (by simp) failed) new

section Run

variable {settings : Settings} {events : List Event}

theorem mirrored_of_run (distinct : (registered events).Nodup) (ran : (start settings).run events = some m) :
    Mirrored m :=
  (Orderly.start settings).keeps Mirrored.next distinct ran (mirrored_start settings)

theorem mem_noticesOf : notice ∈ m.noticesOf notice.handle ↔ notice ∈ m.notices := by
  simp [noticesOf]

-- Over every run, at any time while a watch is in the registry, its receiver can have a copy of its
-- snapshot; and when it is told that the watch has failed, the watch is still there and the copy still good.
theorem replayed_reports_agree (distinct : (registered events).Nodup)
    (ran : (start settings).run events = some m) :
    (∀ h w s, m.watch? h = some w → .registered h s ∈ m.notices →
        (s.replayAll (m.reported h)).agrees w.snapshot = true) ∧
      ∀ event m' h e, m.take? event = some m' → (registered (events ++ [event])).Nodup →
        .monitoringFailed h e ∈ m'.notices → .monitoringFailed h e ∉ m.notices →
        ∃ w s, m'.watch? h = some w ∧ w.state = .cancelling ∧ .registered h s ∈ m'.notices ∧
          (s.replayAll (m'.reported h)).agrees w.snapshot = true := by
  have agree {m : Monitor} (mirrored : Mirrored m) (h : Handle) (w : Watch) (s : Snapshot)
      (seen : m.watch? h = some w) (told : .registered h s ∈ m.notices) :
      (s.replayAll (m.reported h)).agrees w.snapshot = true :=
    (mirrored h w s seen (mem_noticesOf.mpr told)).agrees
  refine ⟨agree (mirrored_of_run distinct ran), fun event m' h e taken later failed new => ?_⟩
  have orderly := ((Orderly.start settings).follows distinct ran).orderly
  obtain ⟨w, seen⟩ := kept_of_failed orderly taken (mem_noticesOf.mpr failed) fun old => new (mem_noticesOf.mp old)
  have went : (start settings).run (events ++ [event]) = some m' := by
    rw [run_append, ran]
    simp [run, taken]
  have orderly' := ((Orderly.start settings).follows later went).orderly
  have ended : m'.isActive h = false := (ended_of_last orderly' failed rfl rfl).2
  rw [isActive_of_seen seen, beq_eq_false_iff_ne] at ended
  obtain ⟨s, told⟩ := (orderly'.fits h).1.registered (mem_noticesOf.mpr failed)
  refine ⟨w, s, seen, ?_, mem_noticesOf.mp told, ?_⟩
  · cases state : w.state with
    | active => exact absurd state ended
    | cancelling => rfl
  · exact agree (mirrored_of_run later went) h w s seen (mem_noticesOf.mp told)

namespace Sample

open Reconcile.Sample

def removal : List Event :=
  [.post asked, .serve asked filled fun _ _ => .plain, .signal ⟨1⟩ (.deliver [⟨.removed, .ofName name⟩]),
    .complete bare, .signal ⟨1⟩ (.fail .stopped)]

end Sample

theorem replayed_reports_agree_failure : ∃ m m' w, (start .defaults).run Sample.removal = some m ∧
    m.take? (.complete Reconcile.Sample.bare) = some m' ∧ m.reported ⟨1⟩ = [.removed Reconcile.Sample.file] ∧
    m.watch? ⟨1⟩ = some w ∧
    (Reconcile.Sample.held.replayAll [.removed Reconcile.Sample.file]).agrees w.snapshot = true ∧
    ∃ v s, m'.watch? ⟨1⟩ = some v ∧ v.state = .cancelling ∧ .registered ⟨1⟩ s ∈ m'.notices ∧
      (s.replayAll (m'.reported ⟨1⟩)).agrees v.snapshot = true := by
  have distinct : (registered Sample.removal).Nodup := by decide
  have agree := @replayed_reports_agree _ .defaults _ distinct rfl
  refine ⟨_, _, _, rfl, rfl, rfl, rfl, ?_, ?_⟩
  · exact agree.1 ⟨1⟩ _ Reconcile.Sample.held rfl List.mem_cons_self
  · exact agree.2 (.complete Reconcile.Sample.bare) _ ⟨1⟩ .stopped rfl (by decide)
      (List.mem_append_right _ List.mem_cons_self) (by decide)

end Run

end Monitor

end DirWatch
