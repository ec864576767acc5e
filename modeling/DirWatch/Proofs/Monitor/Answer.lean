import DirWatch.Proofs.Monitor.Course

namespace DirWatch.Monitor

variable {m m' : Monitor} {h k : Handle} {d : Disk} {backend : Backend} {reactions : List Reaction}
  {error : MonitorError}

-- A registration has been answered, and the watch is active if the answer says so.
structure Answered (m m' : Monitor) (h : Handle) : Prop where
  running : m'.running = m.running
  queued : m'.queued = m.queued
  phases : ∀ k, k ≠ h → m'.phase k = m.phase k
  others : ∀ k, k ≠ h → m'.noticesOf k = m.noticesOf k
  told : (∃ e, m'.noticesOf h = m.noticesOf h ++ [.registrationFailed h e] ∧ m'.isActive h = false) ∨
    ∃ s, m'.noticesOf h = m.noticesOf h ++ [.registered h s]

theorem refuse_quiet : Quiet { m with notices := m.notices ++ [.registrationFailed h error] }
    (m.refuse h reactions error) := quiet_tell

theorem noticesOf_refuse : (m.refuse h reactions error).noticesOf k =
    if h = k then m.noticesOf k ++ [.registrationFailed h error] else m.noticesOf k := noticesOf_tell

theorem answered_refuse (inactive : m.isActive h = false) : Answered m (m.refuse h reactions error) h := by
  refine ⟨refuse_quiet.running, refuse_quiet.queued, fun k _ => refuse_quiet.phases k, fun k other => ?_, ?_⟩
  · rw [noticesOf_refuse, if_neg (Ne.symm other)]
  · refine .inl ⟨error, ?_, (refuse_quiet.isActive h).trans inactive⟩
    rw [noticesOf_refuse, if_pos rfl]

theorem Answered.of_evolved {between : Monitor} (one : Answered between m' h)
    (running : between.running = m.running) (queued : between.queued = m.queued)
    (notices : between.notices = m.notices) (phases : ∀ k, k ≠ h → between.phase k = m.phase k) :
    Answered m m' h := by
  have same (k : Handle) : between.noticesOf k = m.noticesOf k := congrArg _ notices
  refine ⟨one.running.trans running, one.queued.trans queued, fun k other => ?_, fun k other => ?_, ?_⟩
  · exact (one.phases k other).trans (phases k other)
  · exact (one.others k other).trans (same k)
  · rw [← same]
    exact one.told

theorem answered_registered {s : Snapshot} : Answered m (m.tell reactions (.registered h s)) h := by
  refine ⟨quiet_tell.running, quiet_tell.queued, fun k _ => quiet_tell.phases k, fun k other => ?_,
    .inr ⟨s, ?_⟩⟩
  · rw [noticesOf_tell]
    exact if_neg (Ne.symm other)
  · rw [noticesOf_tell]
    exact if_pos rfl

theorem answered_cancel : Answered m ((m.cancel h).refuse h reactions error) h := by
  obtain ⟨running, queued, notices⟩ := @cancel_frame m h
  have inactive : (m.cancel h).isActive h = false := by
    rw [isActive_cancel]
    simp
  refine (answered_refuse inactive).of_evolved running queued notices fun k other => ?_
  rw [phase_cancel]
  exact if_neg fun both => other both.1

theorem answered_openWatch {root : Path} {recursive : Bool} {signals : List Signal} :
    Answered m (m.openWatch d h root recursive reactions signals) h := by
  unfold openWatch
  dsimp only
  generalize signals.foldl (fun slot s => (slot.receive s).1)
    (Slot.fresh m.settings.bufferCapacity.toNat) = fed
  generalize grown : ({ m with
    watches := m.watches ++ [⟨h, recursive, .empty root, fed, reactions, .active⟩], sources := m.sources ++ [h],
    requests := m.requests + 1 } : Monitor) = opened
  have frame : opened.running = m.running ∧ opened.queued = m.queued ∧ opened.notices = m.notices := by
    subst grown
    exact ⟨rfl, rfl, rfl⟩
  have phases (k : Handle) (other : k ≠ h) : opened.phase k = m.phase k := by
    subst grown
    unfold phase watch?
    simp [List.find?_append, Ne.symm other]
  have armed : Quiet opened (opened.arm h .empty).1 := quiet_arm
  have running := armed.running.trans frame.1
  have queued := armed.queued.trans frame.2.1
  have notices := armed.notices.trans frame.2.2
  have same (k : Handle) (other : k ≠ h) := (armed.phases k).trans (phases k other)
  split
  · refine Answered.of_evolved answered_registered ?_ ?_ ?_ fun k other => ?_
    · exact quiet_setSnapshot.running.trans running
    · exact quiet_setSnapshot.queued.trans queued
    · exact quiet_setSnapshot.notices.trans notices
    · exact (quiet_setSnapshot.phases k).trans (same k other)
  · exact answered_cancel.of_evolved running queued notices same
  · exact answered_cancel.of_evolved running queued notices same

theorem answered_register {path : Path} {recursive : Bool} (inactive : m.isActive h = false) :
    Answered m (m.register d backend h path recursive reactions).1 h := by
  unfold register
  split
  · exact answered_refuse inactive
  · split
    · exact answered_refuse inactive
    · split
      · exact answered_refuse inactive
      · dsimp only
        split
        · exact answered_refuse inactive
        · exact answered_openWatch

theorem refuseQueued_frame (cs : List Command) : (m.refuseQueued cs).running = m.running ∧
    (m.refuseQueued cs).queued = m.queued ∧ ∀ k, (m.refuseQueued cs).phase k = m.phase k := by
  induction cs generalizing m with
  | nil => exact ⟨rfl, rfl, fun _ => rfl⟩
  | cons c rest ih =>
    cases c with
    | register h path recursive reactions =>
      obtain ⟨running, queued, phases⟩ := @ih (m.refuse h reactions .stopped)
      have quiet := @refuse_quiet m h reactions .stopped
      exact ⟨running.trans quiet.running, queued.trans quiet.queued,
        fun k => (phases k).trans (quiet.phases k)⟩
    | unregister => exact ih
    | stop => exact ih

theorem noticesOf_refuseQueued (cs : List Command) (distinct : (cs.filterMap Command.registers).Nodup) :
    (k ∉ cs.filterMap Command.registers → (m.refuseQueued cs).noticesOf k = m.noticesOf k) ∧
      (k ∈ cs.filterMap Command.registers →
        (m.refuseQueued cs).noticesOf k = m.noticesOf k ++ [.registrationFailed k .stopped]) := by
  induction cs generalizing m with
  | nil => exact ⟨fun _ => rfl, fun listed => by cases listed⟩
  | cons c rest ih =>
    cases c with
    | register h path recursive reactions =>
      have fold : (m.refuseQueued (.register h path recursive reactions :: rest)) =
          (m.refuse h reactions .stopped).refuseQueued rest := rfl
      have asks : Command.registers (.register h path recursive reactions) = some h := rfl
      rw [List.filterMap_cons_some asks] at distinct ⊢
      obtain ⟨fresh, later⟩ := List.nodup_cons.mp distinct
      obtain ⟨out, inside⟩ := @ih (m.refuse h reactions .stopped) later
      rw [fold]
      constructor
      · intro absent
        rw [List.mem_cons, not_or] at absent
        rw [out absent.2, noticesOf_refuse, if_neg (Ne.symm absent.1)]
      · intro listed
        by_cases here : k = h
        · subst here
          rw [out fresh, noticesOf_refuse, if_pos rfl]
        · rw [inside ((List.mem_cons.mp listed).resolve_left here), noticesOf_refuse, if_neg (Ne.symm here)]
    | unregister => exact ih distinct
    | stop => exact ih distinct

theorem isActive_cancels (handles : List Handle) :
    (handles.foldl cancel m).isActive h = (m.isActive h && decide (h ∉ handles)) := by
  induction handles generalizing m with
  | nil => simp
  | cons k rest ih =>
    rw [List.foldl_cons, ih, isActive_cancel, Bool.and_assoc]
    simp [List.mem_cons, not_or]

theorem isActive_cancelAll : m.cancelAll.isActive h = false := by
  unfold cancelAll
  rw [isActive_cancels]
  cases active : m.isActive h with
  | false => rfl
  | true =>
    obtain ⟨w, seen⟩ := watch_of_active active
    have named : w.handle = h := handle_of_watch? seen
    have listed : h ∈ m.watches.map Watch.handle :=
      named ▸ List.mem_map_of_mem (List.mem_of_find?_eq_some seen)
    simp [listed]

theorem evolves_releaseAborted (cs : List Completion) : Evolves m (m.releaseAborted cs) := by
  induction cs generalizing m with
  | nil => exact .refl m
  | cons c rest ih =>
    unfold releaseAborted
    split
    · exact evolves_release.trans ih
    · exact ih

theorem evolves_drain :
    Evolves ({ m with running := false, commands := [] }.refuseQueued m.commands) m.drain := by
  unfold drain
  refine evolves_cancelAll.trans (Evolves.trans ?_ (evolves_releaseAborted _))
  exact Quiet.evolves ⟨rfl, rfl, rfl, fun _ => rfl⟩

end DirWatch.Monitor
