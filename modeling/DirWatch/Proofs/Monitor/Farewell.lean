import DirWatch.Proofs.Monitor.Mirror
import DirWatch.Proofs.Monitor.Registry

namespace DirWatch.Monitor

variable {m m' m'' : Monitor} {h k : Handle} {w : Watch} {d : Disk} {backend : Backend} {notice n : Notice}
  {reactions : List Reaction} {ns : List Notice} {error : MonitorError} {outcome : Outcome} {buffer : Buffer}
  {posted : List Handle} {event : Event} {events : List Event}

def isOver (ns : List Notice) (h : Handle) : Bool := ns.any fun n => n.isLast && n.handle == h

theorem isOver_iff : isOver ns h = true ↔ ∃ n ∈ ns, n.isLast = true ∧ n.handle = h := by
  simp [isOver]

def LastIsLast (ns : List Notice) : Prop := ns.Pairwise fun n later => n.isLast = true → n.handle ≠ later.handle

theorem Open.lastIsLast (told : Open h ns) : LastIsLast ns := by
  refine List.Pairwise.imp_of_mem (fun listed _ _ last => ?_) (List.pairwise_of_forall fun _ _ => trivial)
  simp [told.not_last listed] at last

theorem Conforms.lastIsLast (conforms : Conforms h ns) : LastIsLast ns := by
  rcases conforms with rfl | ⟨e, rfl⟩ | running | ⟨before, e, running, rfl⟩
  · exact .nil
  · exact List.pairwise_singleton _ _
  · exact running.lastIsLast
  · refine List.pairwise_append.mpr ⟨running.lastIsLast, List.pairwise_singleton _ _, fun n listed _ _ last => ?_⟩
    simp [running.not_last listed] at last

-- It is enough to look at each watch by itself.
theorem lastIsLast_of_each (each : ∀ h, LastIsLast (ns.filter (·.handle = h))) : LastIsLast ns := by
  induction ns with
  | nil => exact .nil
  | cons n rest ih =>
    refine List.pairwise_cons.mpr ⟨fun later listed last same => ?_, ih fun h => ?_⟩
    · have own := each n.handle
      rw [List.filter_cons_of_pos (by simp)] at own
      have there : later ∈ rest.filter (·.handle = n.handle) := List.mem_filter.mpr ⟨listed, by simp [same]⟩
      exact (List.pairwise_cons.mp own).1 later there last same
    · exact (each h).sublist ((List.sublist_cons_self n rest).filter _)

theorem Orderly.lastIsLast (orderly : Orderly posted m) : LastIsLast m.notices :=
  lastIsLast_of_each fun h => (orderly.fits h).1.lastIsLast

-- All that has been told stays, and what is not active any more has told its last.
structure Explains (m m' : Monitor) : Prop where
  kept : ∀ n ∈ m.notices, n ∈ m'.notices
  active : ∀ h, m.isActive h = true → m'.isActive h = true ∨ isOver m'.notices h = true

theorem isOver_of_kept (kept : ∀ n ∈ m.notices, n ∈ m'.notices) (ended : isOver m.notices h = true) :
    isOver m'.notices h = true := by
  obtain ⟨n, listed, last⟩ := isOver_iff.mp ended
  exact isOver_iff.mpr ⟨n, kept n listed, last⟩

theorem Quiet.explains (quiet : Quiet m m') : Explains m m' :=
  ⟨fun _ listed => quiet.notices ▸ listed, fun h active => .inl ((quiet.isActive h).trans active)⟩

theorem Explains.refl (m : Monitor) : Explains m m := (Quiet.refl m).explains

theorem Explains.trans (one : Explains m m') (two : Explains m' m'') : Explains m m'' := by
  refine ⟨fun n listed => two.kept n (one.kept n listed), fun h active => ?_⟩
  rcases one.active h active with still | ended
  · exact two.active h still
  · exact .inr (isOver_of_kept two.kept ended)

theorem explains_tell : Explains m (m.tell reactions notice) := by
  have told : Explains m { m with notices := m.notices ++ [notice] } :=
    ⟨fun _ listed => List.mem_append_left _ listed, fun _ active => .inl active⟩
  exact told.trans quiet_tell.explains

theorem explains_tellWatch : Explains m (m.tellWatch notice) := by
  unfold tellWatch
  split
  · exact explains_tell
  · exact .refl m

theorem explains_fail : Explains m (m.fail h error) := by
  unfold fail
  split
  · rename_i active
    obtain ⟨w, seen⟩ := watch_of_active active
    have told : m.tellWatch (.monitoringFailed h error) = m.tell w.reactions (.monitoringFailed h error) :=
      tellWatch_eq seen
    rw [told]
    have explains := @explains_tell m (.monitoringFailed h error) w.reactions
    have notices := (@cancel_frame (m.tell w.reactions (.monitoringFailed h error)) h).2.2
    refine ⟨fun n listed => notices ▸ explains.kept n listed, fun k was => ?_⟩
    by_cases here : k = h
    · subst here
      refine .inr (isOver_iff.mpr ⟨.monitoringFailed k error, ?_, rfl, rfl⟩)
      rw [notices, quiet_tell.notices]
      simp
    · rw [isActive_cancel, notices]
      simpa [here] using explains.active k was
  · exact .refl m

theorem explains_failIf {e : Option MonitorError} : Explains m (m.failIf h e) := by
  cases e with
  | none => exact .refl m
  | some e => exact explains_fail

theorem explains_rootRemoved : Explains m (m.rootRemoved h) := by
  unfold rootRemoved
  split
  · exact explains_fail
  · exact .refl m

theorem explains_deliver : Explains m (m.deliver h outcome) := by
  have taken : Explains m (m.setSnapshot h outcome.snapshot) := quiet_setSnapshot.explains
  refine taken.trans ?_
  unfold deliver
  dsimp only
  split
  · have told : Explains (m.setSnapshot h outcome.snapshot)
        (if outcome.changes.isEmpty then m.setSnapshot h outcome.snapshot
          else (m.setSnapshot h outcome.snapshot).tellWatch (.changed h outcome.changes)) := by
      split
      · exact .refl _
      · exact explains_tellWatch
    have lost (n : Monitor) : Explains n (if outcome.rootRemoved then n.rootRemoved h else n) := by
      split
      · exact explains_rootRemoved
      · exact .refl n
    exact told.trans (lost _)
  · exact .refl _

theorem explains_onNotifications : Explains m (m.onNotifications d w buffer) :=
  (quiet_arm.explains.trans explains_deliver).trans explains_failIf

theorem explains_onOverflow : Explains m (m.onOverflow d w buffer) := by
  have armed : Explains m (m.arm w.handle buffer).1 := quiet_arm.explains
  refine Explains.trans (armed.trans ?_) explains_failIf
  split
  · exact explains_deliver
  · exact explains_fail

theorem explains_onFailure : Explains m (m.onFailure d w error) := by
  refine Explains.trans ?_ explains_fail
  split
  · exact .refl m
  · exact explains_deliver

theorem explains_onCompletion {c : Completion} (given : c.status.isAborted = true → m.isActive c.handle = false) :
    Explains m (m.onCompletion d c) := by
  rcases c.status.aborted_or_other with ⟨b, status⟩ | other
  · rw [onCompletion_aborted status]
    have inactive := given (by rw [status]; rfl)
    refine ⟨fun n listed => ?_, fun k active => .inl ?_⟩
    · unfold release
      split <;> exact listed
    · have apart : k ≠ c.handle := fun same => by simp [same, inactive] at active
      rw [isActive_eq, phase_release, if_neg apart, ← isActive_eq]
      exact active
  · unfold onCompletion
    split
    · rename_i status
      simp [status, Status.isAborted] at other
    · exact .refl m
    · split
      · split
        · exact explains_onNotifications
        · exact explains_onOverflow
        · exact explains_onFailure
        · exact .refl m
      · exact .refl m

theorem registered_or_over {root : Path} {recursive : Bool} {signals : List Signal}
    (unknown : m.watch? h = none) : (m.openWatch d h root recursive reactions signals).isActive h = true ∨
      isOver (m.openWatch d h root recursive reactions signals).notices h = true := by
  rcases openWatch_cases m d h root recursive reactions signals with ⟨_, s, _, equal⟩ | ⟨e, equal⟩
  · left
    have entered : (m.enter (m.opened h root recursive reactions signals)).isActive h = true := by
      have seen := (watch?_enter (w := m.opened h root recursive reactions signals) (k := h) unknown).trans (if_pos rfl)
      rw [isActive_of_seen seen]
      rfl
    rw [equal, quiet_tell.isActive]
    show (Monitor.setSnapshot _ h s).isActive h = true
    rw [quiet_setSnapshot.isActive, quiet_arm.isActive]
    exact entered
  · right
    rw [equal]
    exact isOver_iff.mpr ⟨.registrationFailed h e, by rw [refuse_quiet.notices]; simp, rfl, rfl⟩

theorem isOver_refuse : isOver (m.refuse h reactions error).notices h = true :=
  isOver_iff.mpr ⟨.registrationFailed h error, by rw [refuse_quiet.notices]; simp, rfl, rfl⟩

theorem active_or_isOver_register {path : Path} {recursive : Bool} (unknown : m.watch? h = none) :
    (m.register d backend h path recursive reactions).1.isActive h = true ∨
      isOver (m.register d backend h path recursive reactions).1.notices h = true := by
  unfold register
  split
  · exact .inr isOver_refuse
  · split
    · exact .inr isOver_refuse
    · split
      · exact .inr isOver_refuse
      · dsimp only
        split
        · exact .inr isOver_refuse
        · exact registered_or_over unknown

-- Whoever has been told anything is active, or has been told its last.
def Accounts (m : Monitor) : Prop := ∀ h, m.noticesOf h ≠ [] → m.isActive h = true ∨ isOver m.notices h = true

theorem Accounts.explains (accounts : Accounts m) (explains : Explains m m') (told : m.noticesOf h ≠ []) :
    m'.isActive h = true ∨ isOver m'.notices h = true := by
  rcases accounts h told with active | ended
  · exact explains.active h active
  · exact .inr (isOver_of_kept explains.kept ended)

theorem Accounts.evolved (accounts : Accounts m) (orderly : Orderly posted m) (evolves : Evolves m m')
    (explains : Explains m m') : Accounts m' := by
  intro h told
  refine accounts.explains explains fun none => told ?_
  exact (evolves.silent (orderly.inactive none)).2.trans none

theorem Accounts.answered (accounts : Accounts m) (answered : Answered m m' h)
    (here : m'.isActive h = true ∨ isOver m'.notices h = true) : Accounts m' := by
  intro k told
  by_cases same : k = h
  · exact same ▸ here
  · rw [answered.others k same] at told
    rw [isActive_eq, answered.phases k same, ← isActive_eq]
    refine (accounts k told).imp_right fun ended => ?_
    obtain ⟨n, listed, last, rfl⟩ := isOver_iff.mp ended
    have kept : n ∈ m'.noticesOf n.handle := by
      rw [answered.others n.handle same]
      exact mem_noticesOf.mpr listed
    exact isOver_iff.mpr ⟨n, mem_noticesOf.mp kept, last, rfl⟩

theorem Accounts.next (registry : Registry.Whole m) (orderly : Orderly posted m) (taken : m.take? event = some m')
    (runs : event ≠ .drain) (unasked : ∀ h, event.revokes h = false) (accounts : Accounts m) : Accounts m' := by
  cases taken_of_take? taken with
  | post => exact accounts
  | signal => exact accounts.evolved orderly quiet_signal.evolves quiet_signal.explains
  | @complete d c rest queue =>
    have popped : Quiet m { m with completions := rest } := ⟨rfl, rfl, rfl, fun _ => rfl⟩
    refine accounts.evolved orderly (popped.evolves.trans evolves_onCompletion)
      (popped.explains.trans (explains_onCompletion fun aborted => ?_))
    obtain ⟨w, seen⟩ := registry.known (c := c) (queue ▸ List.mem_cons_self)
    obtain ⟨b, status⟩ := c.status.aborted_or_other.resolve_right (by simp [aborted])
    have custody := registry.custody c.handle w seen
    rw [statusesOf_pop queue, if_pos rfl, status] at custody
    show m.isActive c.handle = false
    simp [isActive_of_seen seen, custody.last.1]
  | @serve c d backend rest queue =>
    cases c with
    | register h path recursive reactions =>
      have waits : h ∈ m.queued := mem_queued queue rfl
      have inactive := orderly.inactive (orderly.waiting h waits)
      have popped : Accounts { m with commands := rest } := accounts
      exact popped.answered (answered_register inactive) (active_or_isOver_register (orderly.unknown waits))
    | unregister k => simpa [Event.revokes] using unasked k
    | stop => simpa [Event.revokes] using unasked ⟨0⟩
  | drain => exact absurd rfl runs

variable {settings : Settings}

-- A run in which nothing is asked to be given up.
def Unrevoked (events : List Event) : Prop := ∀ event ∈ events, event ≠ .drain ∧ ∀ h, event.revokes h = false

theorem accounts_of_run (distinct : (registered events).Nodup) (ran : (start settings).run events = some m)
    (unasked : Unrevoked events) : Accounts m := by
  induction events using List.reverseRecOn generalizing m with
  | nil =>
    cases ran
    exact fun _ told => absurd rfl told
  | append_singleton before event ih =>
    obtain ⟨between, first, last⟩ := Option.bind_eq_some_iff.mp ((run_append (start settings)).symm.trans ran)
    obtain ⟨_, taken, rfl⟩ : ∃ next, between.take? event = some next ∧ next = m := by
      simpa [run] using last
    have early : (registered before).Nodup := by
      rw [registered_append] at distinct
      exact (List.nodup_append.mp distinct).1
    have orderly := ((Orderly.start settings).follows early first).orderly
    obtain ⟨runs, kept⟩ := unasked event (by simp)
    exact (ih early first fun other listed => unasked other (by simp [listed])).next
      (registry_of_run early first) orderly taken runs kept

theorem isOver_iff_ended (distinct : (registered events).Nodup) (ran : (start settings).run events = some m)
    (unasked : Unrevoked events) (asked : h ∈ registered events) :
    isOver m.notices h = true ↔ h ∉ m.queued ∧ m.isActive h = false := by
  have orderly := ((Orderly.start settings).follows distinct ran).orderly
  constructor
  · intro ended
    obtain ⟨n, listed, last, named⟩ := isOver_iff.mp ended
    obtain ⟨told, inactive⟩ := ended_of_last orderly listed named last
    exact ⟨fun waits => told (orderly.waiting h waits), inactive⟩
  · intro given
    obtain ⟨served, inactive⟩ := given
    have told := (orderly.pending h asked).resolve_left served
    exact (accounts_of_run distinct ran unasked h told).resolve_left (by simp [inactive])

end DirWatch.Monitor
