import DirWatch.Monitor.Loop
import Mathlib.Data.List.Basic

namespace DirWatch

def Command.registers : Command → Option Handle
  | .register h .. => some h
  | _ => none

namespace Monitor

variable {m m' m'' : Monitor} {h k : Handle} {reactions : List Reaction} {notice : Notice} {w : Watch}
  {d : Disk}

def noticesOf (m : Monitor) (h : Handle) : List Notice := m.notices.filter (·.handle = h)

def phase (m : Monitor) (h : Handle) : Option WatchState := (m.watch? h).map Watch.state

def queued (m : Monitor) : List Handle := m.commands.filterMap Command.registers

theorem mem_queued {c : Command} {rest : List Command} (queue : m.commands = c :: rest)
    (asks : c.registers = some h) : h ∈ m.queued := by
  unfold queued
  rw [queue, List.filterMap_cons_some asks]
  exact List.mem_cons_self

theorem isActive_eq : m.isActive h = (m.phase h == some .active) := by
  unfold isActive phase
  cases m.watch? h <;> rfl

-- Nothing is told and no watch comes, goes or changes its state.
structure Quiet (m m' : Monitor) : Prop where
  running : m'.running = m.running
  queued : m'.queued = m.queued
  notices : m'.notices = m.notices
  phases : ∀ h, m'.phase h = m.phase h

theorem Quiet.refl (m : Monitor) : Quiet m m := ⟨rfl, rfl, rfl, fun _ => rfl⟩

theorem Quiet.trans (one : Quiet m m') (two : Quiet m' m'') : Quiet m m'' :=
  ⟨two.running.trans one.running, two.queued.trans one.queued, two.notices.trans one.notices,
    fun h => (two.phases h).trans (one.phases h)⟩

theorem Quiet.isActive (quiet : Quiet m m') (h : Handle) : m'.isActive h = m.isActive h := by
  rw [isActive_eq, isActive_eq, quiet.phases]

theorem Quiet.noticesOf (quiet : Quiet m m') (h : Handle) : m'.noticesOf h = m.noticesOf h :=
  congrArg _ quiet.notices

theorem handle_of_watch? (seen : m.watch? h = some w) : w.handle = h := by simpa using List.find?_some seen

theorem watch?_update {f : Watch → Watch} (keeps : ∀ w, (f w).handle = w.handle) :
    (m.update h f).watch? k = if k = h then (m.watch? h).map f else m.watch? k := by
  have found : (m.update h f).watch? k = (m.watch? k).map fun w => if w.handle = h then f w else w := by
    unfold update watch?
    dsimp only
    rw [List.find?_map]
    congr 1
    apply congrArg (fun p => m.watches.find? p)
    funext w
    simp only [Function.comp]
    split
    · rw [keeps]
    · rfl
  rw [found]
  cases seen : m.watch? k with
  | none =>
    split
    · rename_i same
      rw [← same, seen]
      rfl
    · rfl
  | some w =>
    rw [Option.map_some, handle_of_watch? seen]
    split
    · rename_i same
      rw [← same, seen]
      rfl
    · rfl

theorem phase_update {f : Watch → Watch} (keeps : ∀ w, (f w).handle = w.handle) :
    (m.update h f).phase k = if k = h then (m.watch? h).map fun w => (f w).state else m.phase k := by
  unfold phase
  rw [watch?_update keeps]
  split
  · rw [Option.map_map]
    rfl
  · rfl

theorem quiet_update {f : Watch → Watch} (keeps : ∀ w, (f w).handle = w.handle)
    (still : ∀ w, (f w).state = w.state) : Quiet m (m.update h f) := by
  refine ⟨rfl, rfl, rfl, fun k => ?_⟩
  rw [phase_update keeps]
  split
  · rename_i same
    subst same
    simp only [still]
    rfl
  · rfl

theorem quiet_setSlot {slot : Slot} : Quiet m (m.setSlot h slot) :=
  quiet_update (fun _ => rfl) fun _ => rfl

theorem quiet_setSnapshot {s : Snapshot} : Quiet m (m.setSnapshot h s) :=
  quiet_update (fun _ => rfl) fun _ => rfl

theorem quiet_send {status : Option Status} : Quiet m (m.send h status) := by
  cases status with
  | none => exact .refl m
  | some s => exact ⟨rfl, rfl, rfl, fun _ => rfl⟩

theorem quiet_signal {s : Signal} : Quiet m (m.signal h s) := by
  unfold signal
  split
  · exact quiet_setSlot.trans quiet_send
  · exact .refl m

theorem quiet_arm {buffer : Buffer} : Quiet m (m.arm h buffer).1 := by
  unfold arm
  split
  · split
    · exact quiet_setSlot.trans quiet_send
    · exact .refl m
  · exact .refl m

-- A receiver can ask for its watch to be given up, but the loop gets to that later.
theorem quiet_perform {act : Act} : Quiet m (m.perform h act).1 := by
  cases act with
  | stop => exact .refl m
  | unregister =>
    simp only [perform, unregister]
    cases m.running with
    | false => exact .refl m
    | true =>
      refine ⟨rfl, ?_, rfl, fun _ => rfl⟩
      simp [queued, post, Command.registers]
  | countRequests => exact .refl m
  | signal source s =>
    simp only [perform]
    cases m.sources[source]? with
    | none => exact .refl m
    | some fed => exact quiet_signal
  | askCancelled source =>
    simp only [perform]
    cases m.sources[source]? with
    | none => exact .refl m
    | some fed => exact .refl m

theorem quiet_react : Quiet m (m.react notice reactions) := by
  induction reactions generalizing m with
  | nil => exact .refl m
  | cons r rest ih =>
    unfold react
    split
    · have acted : Quiet m (m.perform notice.handle r.act).1 := quiet_perform
      refine acted.trans (Quiet.trans ?_ ih)
      exact ⟨rfl, rfl, rfl, fun _ => rfl⟩
    · exact ih

theorem quiet_tell : Quiet { m with notices := m.notices ++ [notice] } (m.tell reactions notice) := quiet_react

theorem noticesOf_tell : (m.tell reactions notice).noticesOf h =
    if notice.handle = h then m.noticesOf h ++ [notice] else m.noticesOf h := by
  rw [quiet_tell.noticesOf]
  unfold noticesOf
  rw [List.filter_append]
  split
  · rename_i same
    simp [same]
  · rename_i other
    simp [other]

-- What may happen to an active watch.
inductive Course (h : Handle) : Bool × List Notice → Bool × List Notice → Prop
  | stays {told : Bool × List Notice} : Course h told told
  | ends {ns : List Notice} : Course h (true, ns) (false, ns)
  | changes {ns : List Notice} {cs : List Change} : cs ≠ [] →
      Course h (true, ns) (true, ns ++ [.changed h cs])
  | fails {ns : List Notice} {e : MonitorError} :
      Course h (true, ns) (false, ns ++ [.monitoringFailed h e])
  | thenOn {one two three : Bool × List Notice} : Course h one two → Course h two three →
      Course h one three

structure Evolves (m m' : Monitor) : Prop where
  running : m'.running = m.running
  queued : m'.queued = m.queued
  known : ∀ h, (m'.phase h).isSome = true → (m.phase h).isSome = true
  course : ∀ h, Course h (m.isActive h, m.noticesOf h) (m'.isActive h, m'.noticesOf h)

theorem Quiet.evolves (quiet : Quiet m m') : Evolves m m' := by
  refine ⟨quiet.running, quiet.queued, fun h present => quiet.phases h ▸ present, fun h => ?_⟩
  rw [quiet.isActive, quiet.noticesOf]
  exact .stays

theorem Evolves.refl (m : Monitor) : Evolves m m := (Quiet.refl m).evolves

theorem Evolves.trans (one : Evolves m m') (two : Evolves m' m'') : Evolves m m'' :=
  ⟨two.running.trans one.running, two.queued.trans one.queued,
    fun h present => one.known h (two.known h present), fun h => (one.course h).thenOn (two.course h)⟩

theorem evolves_of_phases (running : m'.running = m.running) (queued : m'.queued = m.queued)
    (notices : m'.notices = m.notices) (phases : ∀ h, m'.phase h = m.phase h ∨
      m'.isActive h = false ∧ ((m'.phase h).isSome = true → (m.phase h).isSome = true)) : Evolves m m' := by
  refine ⟨running, queued, fun h present => ?_, fun h => ?_⟩
  · rcases phases h with same | ⟨_, known⟩
    · exact same ▸ present
    · exact known present
  · have told : m'.noticesOf h = m.noticesOf h := congrArg _ notices
    rw [told]
    rcases phases h with same | ⟨ended, _⟩
    · rw [isActive_eq, isActive_eq, same]
      exact .stays
    · rw [ended]
      cases m.isActive h with
      | true => exact .ends
      | false => exact .stays

theorem quiet_cancel (seen : m.watch? h = some w) (active : w.state = .active) :
    Quiet (m.update h fun v => { v with slot := w.slot.cancel.1, state := .cancelling }) (m.cancel h) := by
  unfold cancel
  rw [seen]
  dsimp only
  rw [if_pos active]
  refine Quiet.trans ?_ quiet_send
  exact ⟨rfl, rfl, rfl, fun _ => rfl⟩

theorem cancel_frame : (m.cancel h).running = m.running ∧ (m.cancel h).queued = m.queued ∧
    (m.cancel h).notices = m.notices := by
  cases seen : m.watch? h with
  | none =>
    unfold cancel
    rw [seen]
    exact ⟨rfl, rfl, rfl⟩
  | some w =>
    by_cases active : w.state = .active
    · have quiet := quiet_cancel seen active
      exact ⟨quiet.running, quiet.queued, quiet.notices⟩
    · unfold cancel
      rw [seen]
      dsimp only
      rw [if_neg active]
      exact ⟨rfl, rfl, rfl⟩

theorem phase_cancel : (m.cancel h).phase k =
    if k = h ∧ m.isActive h = true then some .cancelling else m.phase k := by
  cases seen : m.watch? h with
  | none => simp [cancel, isActive, seen]
  | some w =>
    by_cases active : w.state = .active
    · have marked := @phase_update m h k
        (fun v => { v with slot := w.slot.cancel.1, state := .cancelling }) fun _ => rfl
      rw [(quiet_cancel seen active).phases, marked, seen]
      simp [isActive, seen, active]
    · simp [cancel, isActive, seen, active]

theorem isActive_cancel : (m.cancel h).isActive k = (m.isActive k && decide (k ≠ h)) := by
  rw [isActive_eq, phase_cancel]
  by_cases same : k = h
  · subst same
    cases active : m.isActive k with
    | true => simp
    | false =>
      rw [isActive_eq] at active
      simp [active]
  · simp [same, isActive_eq]

theorem evolves_cancel : Evolves m (m.cancel h) := by
  obtain ⟨running, queued, notices⟩ := @cancel_frame m h
  refine evolves_of_phases running queued notices fun k => ?_
  rw [phase_cancel, isActive_cancel]
  by_cases here : k = h ∧ m.isActive h = true
  · right
    obtain ⟨rfl, active⟩ := here
    refine ⟨by simp, fun _ => ?_⟩
    rw [isActive_eq, beq_iff_eq] at active
    rw [active]
    rfl
  · exact .inl (if_neg here)

theorem evolves_cancels (handles : List Handle) : Evolves m (handles.foldl cancel m) := by
  induction handles generalizing m with
  | nil => exact .refl m
  | cons h rest ih => exact evolves_cancel.trans ih

theorem evolves_cancelAll : Evolves m m.cancelAll := evolves_cancels _

theorem watch?_release : (m.release h).watch? k = if k = h then none else m.watch? k := by
  unfold release
  split
  · show (m.watches.filter (·.handle != h)).find? (·.handle == k) = _
    rw [List.find?_filter]
    split
    · rename_i same
      subst same
      rw [List.find?_eq_none]
      simp
    · rename_i other
      unfold watch?
      apply congrArg (fun p => m.watches.find? p)
      funext w
      by_cases named : w.handle = k
      · simp [named, other]
      · simp [named]
  · rename_i gone
    split
    · rename_i same
      rw [same]
      exact Option.not_isSome_iff_eq_none.mp gone
    · rfl

theorem phase_release : (m.release h).phase k = if k = h then none else m.phase k := by
  unfold phase
  rw [watch?_release]
  split <;> rfl

theorem evolves_release : Evolves m (m.release h) := by
  have frame : (m.release h).running = m.running ∧ (m.release h).queued = m.queued ∧
      (m.release h).notices = m.notices := by
    unfold release
    split
    · exact ⟨rfl, rfl, rfl⟩
    · exact ⟨rfl, rfl, rfl⟩
  refine evolves_of_phases frame.1 frame.2.1 frame.2.2 fun k => ?_
  rw [isActive_eq, phase_release]
  split
  · exact .inr ⟨rfl, fun present => by cases present⟩
  · exact .inl rfl

theorem watch_of_active (active : m.isActive h = true) : ∃ w, m.watch? h = some w := by
  unfold isActive at active
  split at active
  · rename_i w seen
    exact ⟨w, seen⟩
  · cases active

theorem tellWatch_eq (seen : m.watch? notice.handle = some w) :
    m.tellWatch notice = m.tell w.reactions notice := by
  unfold tellWatch
  rw [seen]

theorem evolves_changed {changes : List Change} (active : m.isActive h = true) (some : changes ≠ []) :
    Evolves m (m.tellWatch (.changed h changes)) := by
  obtain ⟨w, seen⟩ := watch_of_active active
  have told : m.tellWatch (.changed h changes) = m.tell w.reactions (.changed h changes) := tellWatch_eq seen
  have quiet := @quiet_tell m w.reactions (.changed h changes)
  rw [told]
  refine ⟨quiet.running, quiet.queued, fun k present => quiet.phases k ▸ present, fun k => ?_⟩
  rw [quiet.isActive, noticesOf_tell]
  show Course k (m.isActive k, _) (m.isActive k, _)
  split
  · rename_i same
    subst same
    rw [show Notice.handle (.changed h changes) = h from rfl, active]
    exact .changes some
  · exact .stays

theorem evolves_fail {e : MonitorError} : Evolves m (m.fail h e) := by
  unfold fail
  split
  · rename_i active
    obtain ⟨w, seen⟩ := watch_of_active active
    have told : m.tellWatch (.monitoringFailed h e) = m.tell w.reactions (.monitoringFailed h e) :=
      tellWatch_eq seen
    rw [told]
    have quiet := @quiet_tell m w.reactions (.monitoringFailed h e)
    obtain ⟨running, queued, notices⟩ := @cancel_frame (m.tell w.reactions (.monitoringFailed h e)) h
    refine ⟨running.trans quiet.running, queued.trans quiet.queued, fun k present => ?_, fun k => ?_⟩
    · exact quiet.phases k ▸ evolves_cancel.known k present
    · have same : ((m.tell w.reactions (.monitoringFailed h e)).cancel h).noticesOf k =
          (m.tell w.reactions (.monitoringFailed h e)).noticesOf k := congrArg _ notices
      rw [same, noticesOf_tell, isActive_cancel, quiet.isActive]
      show Course k (m.isActive k, _) (m.isActive k && _, _)
      split
      · rename_i here
        have here : h = k := here
        subst here
        rw [active]
        simp only [ne_eq, not_true, decide_false, Bool.and_false]
        exact .fails
      · rename_i other
        have other : k ≠ h := fun same => other same.symm
        simp only [other, ne_eq, not_false_eq_true, decide_true, Bool.and_true]
        exact .stays
  · exact .refl m

theorem evolves_failIf {e : Option MonitorError} : Evolves m (m.failIf h e) := by
  cases e with
  | none => exact .refl m
  | some e => exact evolves_fail

theorem evolves_rootRemoved : Evolves m (m.rootRemoved h) := by
  unfold rootRemoved
  split
  · exact evolves_fail
  · exact .refl m

theorem evolves_deliver {outcome : Outcome} : Evolves m (m.deliver h outcome) := by
  have quiet : Quiet m (m.setSnapshot h outcome.snapshot) := quiet_setSnapshot
  refine quiet.evolves.trans ?_
  unfold deliver
  dsimp only
  split
  · rename_i active
    have told : Evolves (m.setSnapshot h outcome.snapshot)
        (if outcome.changes.isEmpty then m.setSnapshot h outcome.snapshot
          else (m.setSnapshot h outcome.snapshot).tellWatch (.changed h outcome.changes)) := by
      split
      · exact .refl _
      · rename_i some
        exact evolves_changed active (by simpa using some)
    have lost (n : Monitor) : Evolves n (if outcome.rootRemoved then n.rootRemoved h else n) := by
      split
      · exact evolves_rootRemoved
      · exact .refl n
    exact told.trans (lost _)
  · exact .refl _

theorem evolves_onNotifications {buffer : Buffer} : Evolves m (m.onNotifications d w buffer) := by
  have armed : Evolves m (m.arm w.handle buffer.take.2).1 := quiet_arm.evolves
  exact (armed.trans evolves_deliver).trans evolves_failIf

theorem evolves_onOverflow {buffer : Buffer} : Evolves m (m.onOverflow d w buffer) := by
  have armed : Evolves m (m.arm w.handle buffer).1 := quiet_arm.evolves
  refine Evolves.trans (armed.trans ?_) evolves_failIf
  split
  · exact evolves_deliver
  · exact evolves_fail

theorem evolves_onFailure {e : MonitorError} : Evolves m (m.onFailure d w e) := by
  refine Evolves.trans ?_ evolves_fail
  split
  · exact .refl m
  · exact evolves_deliver

theorem evolves_onCompletion {c : Completion} : Evolves m (m.onCompletion d c) := by
  unfold onCompletion
  split
  · exact evolves_release
  · exact .refl m
  · split
    · split
      · exact evolves_onNotifications
      · exact evolves_onOverflow
      · exact evolves_onFailure
      · exact .refl m
    · exact .refl m

end Monitor

end DirWatch
