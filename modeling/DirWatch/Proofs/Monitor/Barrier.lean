import DirWatch.Proofs.Monitor.Mirror
import DirWatch.Proofs.Monitor.Registry

namespace DirWatch.Monitor

variable {m m' m'' : Monitor} {h : Handle} {w : Watch} {d d' : Disk} {backend : Backend} {event : Event}
  {events rest : List Event} {notice : Notice} {reactions : List Reaction} {x : Signal}
  {c : Completion} {i j : Nat}

def Event.isCompletion : Event → Bool
  | .complete _ => true
  | _ => false

-- How a registration is answered that comes too late.
def refusal (h : Handle) : Notice := .registrationFailed h .stopped

-- Every watch has been given up, and no other one will be opened.
structure Ended (m : Monitor) : Prop where
  refusing : m.accepting = false
  distinct : (m.watches.map Watch.handle).Nodup
  givenUp : ∀ w ∈ m.watches, w.state = .cancelling ∧ w.slot.cancelled = true

-- What may still happen then, while at least `i` completions are served.
structure Winds (i : Nat) (m m' : Monitor) : Prop where
  ended : Ended m'
  handles : (m'.watches.map Watch.handle).Sublist (m.watches.map Watch.handle)
  requests : m'.requests ≤ m.requests
  completions : m'.completions.length ≤ m.completions.length - i
  refused : ∃ hs : List Handle, m'.notices = m.notices ++ hs.map refusal

theorem Winds.trans (one : Winds i m m') (two : Winds j m' m'') : Winds (i + j) m m'' := by
  obtain ⟨hs, first⟩ := one.refused
  obtain ⟨more, second⟩ := two.refused
  refine ⟨two.ended, two.handles.trans one.handles, two.requests.trans one.requests, ?_, hs ++ more, ?_⟩
  · have before := one.completions
    have after := two.completions
    omega
  · rw [second, first, List.map_append, List.append_assoc]

section Ended

variable (ended : Ended m)
include ended

theorem Ended.inactive : m.isActive h = false := by
  cases seen : m.watch? h with
  | none => simp [isActive, seen]
  | some w => simp [isActive_of_seen seen, (ended.givenUp w (List.mem_of_find?_eq_some seen)).1]

theorem Ended.of_same (watches : m'.watches = m.watches) (accepting : m'.accepting = m.accepting) : Ended m' :=
  ⟨accepting.trans ended.refusing, watches ▸ ended.distinct, watches ▸ ended.givenUp⟩

theorem Ended.keeps (watches : m'.watches = m.watches) (accepting : m'.accepting = m.accepting)
    (requests : m'.requests = m.requests) (completions : m'.completions.length ≤ m.completions.length - i)
    (notices : m'.notices = m.notices) : Winds i m m' := by
  refine ⟨ended.of_same watches accepting, ?_, requests.le, completions, [], ?_⟩
  · rw [watches]
  · rw [notices, List.map_nil, List.append_nil]

theorem Ended.signal : m.signal h x = m := by
  cases seen : m.watch? h with
  | none => simp [Monitor.signal, seen]
  | some w =>
    have cancelled := (ended.givenUp w (List.mem_of_find?_eq_some seen)).2
    have silent : w.slot.receive x = (w.slot, none) := Slot.call?_cancelled (c := .signal x) cancelled rfl
    have same : m.watches.map (fun v => if v.handle = h then { v with slot := w.slot } else v) = m.watches := by
      rw [← List.map_id m.watches, List.map_map]
      apply List.map_congr_left
      intro v listed
      simp only [Function.comp, id_eq]
      split
      · rename_i named
        have there := watch?_of_mem ended.distinct listed
        rw [named, seen] at there
        cases there
        rfl
      · rfl
    simp only [Monitor.signal, seen, silent, send, setSlot, update, same]

theorem Ended.perform (h : Handle) (act : Act) : ∃ cs, (m.perform h act).1 = { m with commands := cs } := by
  cases act with
  | stop => exact ⟨m.commands, rfl⟩
  | unregister =>
    by_cases running : m.running = true
    · exact ⟨m.commands ++ [.unregister h], by simp [Monitor.perform, Monitor.unregister, running, post]⟩
    · refine ⟨m.commands, ?_⟩
      show _ = m
      simp [Monitor.perform, Monitor.unregister, running]
  | countRequests => exact ⟨m.commands, rfl⟩
  | signal source s =>
    simp only [Monitor.perform]
    cases m.sources[source]? with
    | none => exact ⟨m.commands, rfl⟩
    | some fed => exact ⟨m.commands, ended.signal⟩
  | askCancelled source =>
    simp only [Monitor.perform]
    cases m.sources[source]? with
    | none => exact ⟨m.commands, rfl⟩
    | some fed => exact ⟨m.commands, rfl⟩

theorem Ended.react : ∃ cs as, m.react notice reactions = { m with commands := cs, answers := as } := by
  induction reactions generalizing m with
  | nil => exact ⟨m.commands, m.answers, rfl⟩
  | cons r more ih =>
    unfold Monitor.react
    split
    · obtain ⟨cs, acted⟩ := ended.perform notice.handle r.act
      dsimp only
      rw [acted]
      obtain ⟨later, as, last⟩ := ih (m := { m with
        commands := cs, answers := m.answers ++ [(r.occasion, (m.perform notice.handle r.act).2)] })
        (ended.of_same rfl rfl)
      exact ⟨later, as, last⟩
    · exact ih ended

theorem Ended.refuse (h : Handle) (reactions : List Reaction) : ∃ cs as, m.refuse h reactions .stopped =
    { m with notices := m.notices ++ [refusal h], commands := cs, answers := as } := by
  have told : Ended { m with notices := m.notices ++ [refusal h] } := ended.of_same rfl rfl
  exact told.react

theorem Ended.cancels (handles : List Handle) : handles.foldl Monitor.cancel m = m := by
  induction handles with
  | nil => rfl
  | cons h more ih =>
    rw [List.foldl_cons, cancel_of_inactive ended.inactive]
    exact ih

theorem Ended.release : Winds 0 m (m.release h) := by
  unfold Monitor.release
  split
  · have fewer : (m.watches.filter (·.handle != h)).Sublist m.watches := List.filter_sublist
    refine ⟨⟨ended.refusing, (fewer.map _).nodup ended.distinct, ?_⟩, fewer.map _, Nat.sub_le _ _,
      Nat.le_refl _, [], (List.append_nil _).symm⟩
    intro w listed
    exact ended.givenUp w (fewer.subset listed)
  · exact ended.keeps rfl rfl rfl (Nat.le_refl _) rfl

theorem Ended.refl : Winds 0 m m := ended.keeps rfl rfl rfl (Nat.le_refl _) rfl

theorem Ended.onCompletion : Winds 0 m (m.onCompletion d c) := by
  rcases c.status.aborted_or_other with ⟨b, status⟩ | other
  · rw [onCompletion_aborted status]
    exact ended.release
  · rw [onCompletion_inactive other ended.inactive]
    exact ended.refl

theorem Ended.refuse_winds (h : Handle) (reactions : List Reaction) : Winds 0 m (m.refuse h reactions .stopped) := by
  obtain ⟨cs, as, refused⟩ := ended.refuse h reactions
  rw [refused]
  exact ⟨ended.of_same rfl rfl, List.Sublist.refl _, Nat.le_refl _, Nat.le_refl _, [h], rfl⟩

theorem Ended.onCommand {command : Command} : Winds 0 m (m.onCommand d backend command).1 := by
  cases command with
  | register h path recursive reactions =>
    simp only [Monitor.onCommand, register, ended.refusing, Bool.not_false, if_true]
    exact ended.refuse_winds h reactions
  | unregister h =>
    simp only [Monitor.onCommand, cancel_of_inactive ended.inactive]
    exact ended.refl
  | stop =>
    have refusing : Ended { m with accepting := false } := ⟨rfl, ended.distinct, ended.givenUp⟩
    simp only [Monitor.onCommand, cancelAll, refusing.cancels]
    exact ended.keeps rfl ended.refusing.symm rfl (Nat.le_refl _) rfl

theorem Ended.refuseQueued (cs : List Command) : Winds 0 m (m.refuseQueued cs) := by
  induction cs generalizing m with
  | nil => exact ended.refl
  | cons command more ih =>
    cases command with
    | register h path recursive reactions =>
      have refused := ended.refuse_winds h reactions
      exact refused.trans (ih refused.ended)
    | unregister h => exact ih ended
    | stop => exact ih ended

theorem Ended.releaseAborted (cs : List Completion) : Winds 0 m (m.releaseAborted cs) := by
  induction cs generalizing m with
  | nil => exact ended.refl
  | cons c more ih =>
    unfold Monitor.releaseAborted
    split
    · exact ended.release.trans (ih ended.release.ended)
    · exact ih ended

theorem Ended.drain : Winds 0 m m.drain := by
  have closed : Winds 0 m { m with running := false, commands := [] } :=
    ended.keeps rfl rfl rfl (Nat.le_refl _) rfl
  have refused := closed.trans (closed.ended.refuseQueued m.commands)
  unfold Monitor.drain
  generalize { m with running := false, commands := [] }.refuseQueued m.commands = n at refused
  have emptied : Winds 0 n { n with completions := [] } :=
    refused.ended.keeps rfl rfl rfl (Nat.zero_le _) rfl
  simp only [cancelAll, refused.ended.cancels]
  exact (refused.trans emptied).trans (emptied.ended.releaseAborted _)

theorem Ended.take? (taken : m.take? event = some m') : Winds (if event.isCompletion then 1 else 0) m m' := by
  cases taken_of_take? taken with
  | post => exact ended.keeps rfl rfl rfl (Nat.le_refl _) rfl
  | signal =>
    rw [ended.signal]
    exact ended.refl
  | @complete d c rest queue =>
    have popped : Winds 1 m { m with completions := rest } := ended.keeps rfl rfl rfl (by simp [queue]) rfl
    exact popped.trans popped.ended.onCompletion
  | @serve command d backend rest queue =>
    have popped : Winds 0 m { m with commands := rest } :=
      ended.keeps rfl rfl rfl (Nat.le_refl _) rfl
    exact popped.trans popped.ended.onCommand
  | drain => exact ended.drain

theorem Ended.run (ran : m.run events = some m') : Winds (events.countP Event.isCompletion) m m' := by
  induction events generalizing m with
  | nil =>
    cases ran
    exact ended.refl
  | cons event rest ih =>
    obtain ⟨next, taken, later⟩ := Option.bind_eq_some_iff.mp ran
    have first := ended.take? taken
    rw [List.countP_cons, Nat.add_comm]
    exact first.trans (ih first.ended later)

end Ended

theorem accepting_cancels (handles : List Handle) : (handles.foldl cancel m).accepting = m.accepting := by
  induction handles generalizing m with
  | nil => rfl
  | cons h more ih =>
    have same : (m.cancel h).accepting = m.accepting := by
      unfold cancel
      split
      · rename_i w seen
        dsimp only
        split
        · cases w.slot.cancel.2 <;> rfl
        · rfl
      · rfl
    rw [List.foldl_cons, ih, same]

theorem Registry.closing (registry : Registry.Whole m) (inactive : ∀ h, m.isActive h = false)
    (listed : w ∈ m.watches) : w.state = .cancelling ∧ w.slot.cancelled = true ∧ m.statusesOf w.handle ≠ [] := by
  have seen := watch?_of_mem registry.distinct listed
  have given := inactive w.handle
  rw [isActive_of_seen seen, beq_eq_false_iff_ne] at given
  have custody := registry.custody w.handle w seen
  generalize m.statusesOf w.handle = statuses at custody
  cases custody with
  | pending active => exact absurd active given
  | completed active => exact absurd active given
  | served _ active => exact absurd active given
  | closing ending cancelled => exact ⟨ending, cancelled, by simp⟩

theorem Registry.ended (registry : Registry.Whole m) (inactive : ∀ h, m.isActive h = false)
    (refusing : m.accepting = false) : Ended m := by
  refine ⟨refusing, registry.distinct, ?_⟩
  intro w listed
  obtain ⟨ending, cancelled, _⟩ := registry.closing inactive listed
  exact ⟨ending, cancelled⟩

theorem Registry.cleared (registry : Registry.Whole m) (inactive : ∀ h, m.isActive h = false)
    (served : m.completions = []) : m.watches = [] ∧ m.requests = 0 := by
  have none : m.watches = [] := by
    apply List.eq_nil_iff_forall_not_mem.mpr
    intro w listed
    obtain ⟨_, _, waits⟩ := registry.closing inactive listed
    apply waits
    simp [statusesOf, served]
  refine ⟨none, ?_⟩
  rw [registry.counted, none]
  rfl

theorem Registry.drain_cleared (registry : Registry.Whole m) : m.drain.watches = [] ∧ m.drain.requests = 0 := by
  refine registry.drain.cleared ?_ (by rw [drain_eq])
  intro h
  rw [drain_eq]
  exact ((evolves_releaseAborted m.givenUp.completions).silent isActive_cancelAll).1

theorem notices_refuseQueued (cs : List Command) :
    (m.refuseQueued cs).notices = m.notices ++ (cs.filterMap Command.registers).map refusal := by
  induction cs generalizing m with
  | nil => exact (List.append_nil _).symm
  | cons command more ih =>
    cases command with
    | register h path recursive reactions =>
      have told : (m.refuse h reactions .stopped).notices = m.notices ++ [refusal h] := refuse_quiet.notices
      rw [refuseQueued, ih, told, List.append_assoc]
      rfl
    | unregister h => exact ih
    | stop => exact ih

theorem notices_drain : m.drain.notices = m.notices ++ m.queued.map refusal := by
  rw [still_drain.notices, notices_refuseQueued]
  rfl

theorem Ended.step (ended : Ended m) (stepped : m.step d backend = some (m', d')) : Winds 1 m m' := by
  cases queue : m.completions with
  | nil =>
    obtain ⟨event, _, taken⟩ := take?_of_step stepped
    have winds := ended.take? taken
    refine ⟨winds.ended, winds.handles, winds.requests, ?_, winds.refused⟩
    have none := winds.completions
    rw [queue] at none ⊢
    simpa using none
  | cons c rest =>
    have taken : m.take? (.complete d) = some m' := by
      simp only [Monitor.step, queue, Option.some.injEq, Prod.mk.injEq] at stepped
      simp only [Monitor.take?, queue, stepped.1]
    exact ended.take? taken

-- The loop serves completions first, so it gets to the last of them.
theorem Ended.settle (ended : Ended m) (backend : Backend) (d : Disk) (limit : Nat) : (settle backend limit m d).1.Ended ∧
    (settle backend limit m d).1.completions.length ≤ m.completions.length - limit := by
  induction limit generalizing m d with
  | zero => exact ⟨ended, Nat.le_refl _⟩
  | succ limit ih =>
    unfold Monitor.settle
    split
    · rename_i next d' stepped
      have winds := ended.step stepped
      obtain ⟨last, shorter⟩ := ih winds.ended d'
      refine ⟨last, ?_⟩
      have fewer := winds.completions
      omega
    · rename_i idle
      refine ⟨ended, ?_⟩
      unfold Monitor.step at idle
      split at idle
      · cases idle
      · cases idle
      · rename_i none _
        simp [none]

section Run

variable {settings : Settings}

theorem silent_stop : registered (events ++ .serve .stop d backend :: rest) = registered (events ++ rest) := by
  rw [registered_append, registered_append, registered_cons]
  rfl

theorem run_stop (ran : (start settings).run events = some m)
    (stopped : m.take? (.serve .stop d backend) = some m') (went : m'.run rest = some m'') :
    (start settings).run (events ++ .serve .stop d backend :: rest) = some m'' := by
  rw [run_append, ran]
  simp [run, stopped, went]

theorem ended_of_stop (distinct : (registered events).Nodup) (ran : (start settings).run events = some m)
    (stopped : m.take? (.serve .stop d backend) = some m') : Ended m' := by
  have whole : (registered (events ++ .serve .stop d backend :: [])).Nodup := by
    rw [silent_stop, List.append_nil]
    exact distinct
  have registry := registry_of_run whole (run_stop ran stopped rfl)
  cases taken_of_take? stopped with
  | serve queue => exact registry.ended (fun h => isActive_cancelAll) (accepting_cancels _)

-- Over every run: the drain empties the registry and refuses exactly the registrations that are still
-- queued. Once the loop has got to a stop, as it does by itself, no watch is active any more, none is
-- opened, and nothing but refusals is told.
theorem stop_is_barrier (distinct : (registered events).Nodup) (ran : (start settings).run events = some m) :
    (m.drain.watches = [] ∧ m.drain.requests = 0 ∧ m.queued.Nodup ∧
      m.drain.notices = m.notices ++ m.queued.map refusal) ∧
    ∀ d backend m', m.take? (.serve .stop d backend) = some m' →
      (∀ rest m'', m'.run rest = some m'' →
        (∀ w ∈ m''.watches, w.state = .cancelling) ∧
        (∀ event next, m''.take? event = some next →
          (next.watches.map Watch.handle).Sublist (m''.watches.map Watch.handle) ∧
            next.requests ≤ m''.requests ∧
            ∃ hs : List Handle, next.notices = m''.notices ++ hs.map refusal) ∧
        ((registered (events ++ rest)).Nodup → m'.completions.length ≤ rest.countP Event.isCompletion →
          m''.watches = [] ∧ m''.requests = 0)) ∧
      ∀ limit d backend, m'.completions.length ≤ limit →
        (settle backend limit m' d).1.watches = [] ∧ (settle backend limit m' d).1.requests = 0 := by
  have registry := registry_of_run distinct ran
  have orderly := ((Orderly.start settings).follows distinct ran).orderly
  obtain ⟨watches, requests⟩ := registry.drain_cleared
  refine ⟨⟨watches, requests, orderly.distinct, notices_drain⟩, ?_⟩
  intro d backend m' stopped
  have ended := ended_of_stop distinct ran stopped
  have cleared {rest : List Event} {m'' : Monitor} (apart : (registered (events ++ rest)).Nodup)
      (went : m'.run rest = some m'') (last : Ended m'') (served : m''.completions.length ≤ 0) :
      m''.watches = [] ∧ m''.requests = 0 := by
    rw [← @silent_stop d backend] at apart
    have whole := registry_of_run apart (run_stop ran stopped went)
    exact whole.cleared (fun h => last.inactive) (List.length_eq_zero_iff.mp (Nat.le_zero.mp served))
  refine ⟨?_, ?_⟩
  · intro rest m'' went
    have winds := ended.run went
    refine ⟨fun w listed => (winds.ended.givenUp w listed).1, ?_, ?_⟩
    · intro event next taken
      have one := winds.ended.take? taken
      exact ⟨one.handles, one.requests, one.refused⟩
    · intro apart enough
      have served := winds.completions
      exact cleared apart went winds.ended (by omega)
  · intro limit d' backend' enough
    obtain ⟨rest, quiet, went⟩ := @run_of_settle backend' limit m' d'
    obtain ⟨last, served⟩ := ended.settle backend' d' limit
    refine cleared ?_ went last (by omega)
    rw [registered_append, quiet, List.append_nil]
    exact distinct

namespace Sample

open Reconcile.Sample

def stopping : List Event :=
  [.post asked, .serve asked filled fun _ _ => .plain, .signal ⟨1⟩ (.deliver [⟨.removed, .ofName name⟩]),
    .post .stop, .post (.register ⟨2⟩ watched true [])]

def late : List Event :=
  [.complete bare, .serve (.register ⟨2⟩ watched true []) filled fun _ _ => .plain,
    .signal ⟨1⟩ .overflow, .complete bare]

end Sample

theorem stop_is_barrier_queued : ∃ m m' m'', (start .defaults).run Sample.stopping = some m ∧
    m.take? (.serve .stop Reconcile.Sample.bare fun _ _ => .plain) = some m' ∧
    m'.run Sample.late = some m'' ∧ m.isActive ⟨1⟩ = true ∧ m'.completions.length = 2 ∧
    m'.requests = 1 ∧ m''.watches = [] ∧ m''.requests = 0 ∧ m''.noticesOf ⟨2⟩ = [refusal ⟨2⟩] ∧
    m.drain.watches = [] ∧ m.drain.notices = m.notices ++ [refusal ⟨2⟩] := by
  have distinct : (registered Sample.stopping).Nodup := by decide
  have barrier := @stop_is_barrier _ _ .defaults distinct rfl
  obtain ⟨⟨drained, _, _, refused⟩, after⟩ := barrier
  have apart : (registered (Sample.stopping ++ Sample.late)).Nodup := by decide
  obtain ⟨watches, requests⟩ :=
    ((after Reconcile.Sample.bare (fun _ _ => .plain) _ rfl).1 Sample.late _ rfl).2.2 apart (by decide)
  exact ⟨_, _, _, rfl, rfl, rfl, rfl, rfl, rfl, watches, requests, rfl, drained, refused⟩

end Run

end DirWatch.Monitor
