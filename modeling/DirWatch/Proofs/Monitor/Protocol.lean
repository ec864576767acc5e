import DirWatch.Proofs.Monitor.Answer
import DirWatch.Proofs.Monitor.Run
import DirWatch.Proofs.Reconcile.Report

namespace DirWatch.Monitor

variable {m m' m'' : Monitor} {h k : Handle} {d : Disk} {backend : Backend} {posted : List Handle}
  {ns : List Notice} {event : Event} {events : List Event}

def Event.answers (h : Handle) : Event → Bool
  | .serve c .. => c.registers == some h
  | _ => false

def Event.revokes (h : Handle) : Event → Bool
  | .serve (.unregister k) .. => k == h
  | .serve .stop .. => true
  | _ => false

-- Registered, and then told of changes, never of none.
def Open (h : Handle) (ns : List Notice) : Prop :=
  ∃ (s : Snapshot) (reports : List (List Change)), (∀ cs ∈ reports, cs ≠ []) ∧
    ns = .registered h s :: reports.map (Notice.changed h)

def Conforms (h : Handle) (ns : List Notice) : Prop :=
  ns = [] ∨ (∃ e, ns = [.registrationFailed h e]) ∨ Open h ns ∨
    ∃ before e, Open h before ∧ ns = before ++ [.monitoringFailed h e]

def isAnswer : Notice → Bool
  | .registered .. | .registrationFailed .. => true
  | _ => false

theorem Open.changes {cs : List Change} (before : Open h ns) (some : cs ≠ []) :
    Open h (ns ++ [.changed h cs]) := by
  obtain ⟨s, reports, each, rfl⟩ := before
  refine ⟨s, reports ++ [cs], fun ds listed => ?_, by simp⟩
  rcases List.mem_append.mp listed with earlier | last
  · exact each ds earlier
  · exact List.mem_singleton.mp last ▸ some

theorem Open.not_last {n : Notice} (told : Open h ns) (listed : n ∈ ns) : n.isLast = false := by
  obtain ⟨s, reports, _, rfl⟩ := told
  rcases List.mem_cons.mp listed with rfl | later
  · rfl
  · obtain ⟨cs, _, rfl⟩ := List.mem_map.mp later
    rfl

theorem Open.answers (told : Open h ns) : (ns.filter isAnswer).length = 1 := by
  obtain ⟨s, reports, _, rfl⟩ := told
  have none : (reports.map (Notice.changed h)).filter isAnswer = [] := by
    rw [List.filter_eq_nil_iff]
    intro n listed
    obtain ⟨cs, _, rfl⟩ := List.mem_map.mp listed
    simp [isAnswer]
  rw [List.filter_cons_of_pos (show isAnswer (.registered h s) = true from rfl), none]
  rfl

theorem Conforms.answers (conforms : Conforms h ns) (told : ns ≠ []) : (ns.filter isAnswer).length = 1 := by
  rcases conforms with none | ⟨e, rfl⟩ | running | ⟨before, e, running, rfl⟩
  · exact absurd none told
  · rfl
  · exact running.answers
  · rw [List.filter_append, List.length_append, running.answers]
    rfl

theorem Conforms.registered {e : MonitorError} (conforms : Conforms h ns)
    (failed : .monitoringFailed h e ∈ ns) : ∃ s, .registered h s ∈ ns := by
  rcases conforms with rfl | ⟨e, rfl⟩ | ⟨s, reports, _, rfl⟩ | ⟨before, e, ⟨s, reports, _, rfl⟩, rfl⟩
  · cases failed
  · simp at failed
  · exact ⟨s, List.mem_cons_self⟩
  · exact ⟨s, List.mem_cons_self⟩

-- What a watch has told fits, and as long as it is active its story goes on.
def Fits (h : Handle) (told : Bool × List Notice) : Prop :=
  Conforms h told.2 ∧ (told.1 = true → Open h told.2)

theorem fits_refused {e : MonitorError} : Fits h (false, [.registrationFailed h e]) :=
  ⟨.inr (.inl ⟨e, rfl⟩), fun active => by cases active⟩

theorem fits_registered {active : Bool} {s : Snapshot} : Fits h (active, [.registered h s]) := by
  have running : Open h [.registered h s] := ⟨s, [], by simp, rfl⟩
  exact ⟨.inr (.inr (.inl running)), fun _ => running⟩

section Course

variable {one two : Bool × List Notice}

theorem Course.fits (course : Course h one two) (fits : Fits h one) : Fits h two := by
  induction course with
  | stays => exact fits
  | ends => exact ⟨fits.1, fun active => by cases active⟩
  | changes some =>
    have running := (fits.2 rfl).changes some
    exact ⟨.inr (.inr (.inl running)), fun _ => running⟩
  | fails => exact ⟨.inr (.inr (.inr ⟨_, _, fits.2 rfl, rfl⟩)), fun active => by cases active⟩
  | thenOn _ _ first second => exact second (first fits)

theorem Course.told (course : Course h one two) (some : one.2 ≠ []) : two.2 ≠ [] := by
  induction course with
  | stays => exact some
  | ends => exact some
  | changes => simp
  | fails => simp
  | thenOn _ _ first second => exact second (first some)

theorem Course.ended_stays (course : Course h one two) (ended : one.1 = false) : two = one := by
  induction course with
  | stays => rfl
  | ends => cases ended
  | changes => cases ended
  | fails => cases ended
  | thenOn _ _ first second =>
    have same := first ended
    rw [second (same ▸ ended), same]

end Course

theorem Evolves.silent (evolves : Evolves m m') (inactive : m.isActive h = false) :
    m'.isActive h = false ∧ m'.noticesOf h = m.noticesOf h := by
  have same := (evolves.course h).ended_stays inactive
  exact ⟨(congrArg Prod.fst same).trans inactive, congrArg Prod.snd same⟩

-- What every run keeps, if registrations were asked for under the handles `posted`.
structure Orderly (posted : List Handle) (m : Monitor) : Prop where
  fits : ∀ h, Fits h (m.isActive h, m.noticesOf h)
  known : ∀ h, (m.phase h).isSome = true → m.noticesOf h ≠ []
  waiting : ∀ h ∈ m.queued, m.noticesOf h = []
  distinct : m.queued.Nodup
  asked : ∀ h, h ∈ m.queued ∨ m.noticesOf h ≠ [] → h ∈ posted
  pending : ∀ h ∈ posted, h ∈ m.queued ∨ m.noticesOf h ≠ []
  closed : m.running = false → m.queued = []

theorem Orderly.inactive (orderly : Orderly posted m) (untold : m.noticesOf h = []) :
    m.isActive h = false := by
  rw [isActive_eq]
  cases seen : m.phase h with
  | none => rfl
  | some state => exact absurd untold (orderly.known h (by rw [seen]; rfl))

theorem Orderly.unknown (orderly : Orderly posted m) (waits : h ∈ m.queued) : m.watch? h = none := by
  cases seen : m.watch? h with
  | none => rfl
  | some w =>
    have present : (m.phase h).isSome = true := by
      unfold phase
      rw [seen]
      rfl
    exact absurd (orderly.waiting h waits) (orderly.known h present)

theorem Orderly.start (settings : Settings) : Orderly [] (start settings) := by
  refine ⟨fun h => ⟨.inl rfl, fun active => ?_⟩, fun h present => ?_, fun h _ => rfl, List.nodup_nil,
    fun h either => ?_, fun h listed => ?_, fun _ => rfl⟩
  · cases active
  · cases present
  · rcases either with listed | told
    · cases listed
    · exact absurd rfl told
  · cases listed

theorem Orderly.evolves (orderly : Orderly posted m) (evolves : Evolves m m') : Orderly posted m' := by
  have untold {h : Handle} (none : m.noticesOf h = []) : m'.noticesOf h = [] :=
    (evolves.silent (orderly.inactive none)).2.trans none
  have told {h : Handle} (some : m.noticesOf h ≠ []) : m'.noticesOf h ≠ [] := (evolves.course h).told some
  refine ⟨fun h => (evolves.course h).fits (orderly.fits h), fun h present => ?_, fun h listed => ?_,
    evolves.queued ▸ orderly.distinct, fun h either => ?_, fun h asked => ?_, fun stopped => ?_⟩
  · exact told (orderly.known h (evolves.known h present))
  · exact untold (orderly.waiting h (evolves.queued ▸ listed))
  · refine orderly.asked h ?_
    rcases either with listed | some
    · exact .inl (evolves.queued ▸ listed)
    · exact .inr fun none => some (untold none)
  · rcases orderly.pending h asked with listed | some
    · exact .inl (evolves.queued ▸ listed)
    · exact .inr (told some)
  · rw [evolves.queued]
    exact orderly.closed (evolves.running ▸ stopped)

theorem Orderly.of_answers (orderly : Orderly posted m) (new : Handle → Prop)
    (answered : ∀ k, new k → k ∈ m.queued ∧ m'.noticesOf k ≠ [] ∧ Fits k (m'.isActive k, m'.noticesOf k))
    (others : ∀ k, ¬new k → m'.noticesOf k = m.noticesOf k ∧ m'.phase k = m.phase k)
    (queue : ∀ k, k ∈ m'.queued ↔ k ∈ m.queued ∧ ¬new k) (distinct : m'.queued.Nodup)
    (closed : m'.running = false → m'.queued = []) : Orderly posted m' := by
  refine ⟨fun k => ?_, fun k present => ?_, fun k listed => ?_, distinct, fun k either => ?_,
    fun k asked => ?_, closed⟩
  · by_cases now : new k
    · exact (answered k now).2.2
    · obtain ⟨same, phase⟩ := others k now
      rw [same, isActive_eq, phase, ← isActive_eq]
      exact orderly.fits k
  · by_cases now : new k
    · exact (answered k now).2.1
    · obtain ⟨same, phase⟩ := others k now
      rw [same]
      exact orderly.known k (phase ▸ present)
  · obtain ⟨waits, old⟩ := (queue k).mp listed
    rw [(others k old).1]
    exact orderly.waiting k waits
  · by_cases now : new k
    · exact orderly.asked k (.inl (answered k now).1)
    · refine orderly.asked k ?_
      rcases either with listed | told
      · exact .inl ((queue k).mp listed).1
      · exact .inr ((others k now).1 ▸ told)
  · by_cases now : new k
    · exact .inr (answered k now).2.1
    · rcases orderly.pending k asked with listed | told
      · exact .inl ((queue k).mpr ⟨listed, now⟩)
      · exact .inr ((others k now).1 ▸ told)

theorem Orderly.answered {popped : Monitor} (orderly : Orderly posted m)
    (queue : m.queued = h :: popped.queued) (running : popped.running = m.running)
    (notices : popped.notices = m.notices) (phases : ∀ k, popped.phase k = m.phase k)
    (answered : Answered popped m' h) : Orderly posted m' := by
  have before (k : Handle) : popped.noticesOf k = m.noticesOf k := congrArg _ notices
  have first : h ∈ m.queued := by
    rw [queue]
    exact List.mem_cons_self
  have apart := orderly.distinct
  rw [queue] at apart
  obtain ⟨fresh, rest⟩ := List.nodup_cons.mp apart
  have told := answered.told
  rw [before, orderly.waiting h first] at told
  refine orderly.of_answers (· = h) (fun k here => ?_) (fun k other => ⟨?_, ?_⟩) (fun k => ?_)
    (answered.queued ▸ rest) fun stopped => ?_
  · subst here
    rcases told with ⟨e, told, inactive⟩ | ⟨s, told⟩
    · rw [told, inactive]
      exact ⟨first, by simp, fits_refused⟩
    · rw [told]
      exact ⟨first, by simp, fits_registered⟩
  · exact (answered.others k other).trans (before k)
  · exact (answered.phases k other).trans (phases k)
  · rw [answered.queued, queue, List.mem_cons]
    constructor
    · exact fun listed => ⟨.inr listed, fun same => fresh (same ▸ listed)⟩
    · exact fun ⟨either, other⟩ => either.resolve_left other
  · have none := orderly.closed (running ▸ answered.running ▸ stopped)
    rw [queue] at none
    cases none

theorem Orderly.refused (orderly : Orderly posted m) :
    Orderly posted ({ m with running := false, commands := [] }.refuseQueued m.commands) := by
  obtain ⟨_, queued, phases⟩ := @refuseQueued_frame { m with running := false, commands := [] } m.commands
  have empty : ({ m with running := false, commands := [] }.refuseQueued m.commands).queued = [] := queued
  have notices (k : Handle) := @noticesOf_refuseQueued { m with running := false, commands := [] } k
    m.commands orderly.distinct
  refine orderly.of_answers (· ∈ m.queued) (fun k listed => ?_) (fun k absent => ?_) (fun k => ?_)
    (empty ▸ List.nodup_nil) fun _ => empty
  · have untold := orderly.waiting k listed
    have told : ({ m with running := false, commands := [] }.refuseQueued m.commands).noticesOf k =
        [.registrationFailed k .stopped] := ((notices k).2 listed).trans (congrArg (· ++ _) untold)
    rw [told, isActive_eq, phases, ← isActive_eq]
    have inactive : m.isActive k = false := orderly.inactive untold
    rw [show ({ m with running := false, commands := [] } : Monitor).isActive k = false from inactive]
    exact ⟨listed, by simp, fits_refused⟩
  · exact ⟨(notices k).1 absent, phases k⟩
  · rw [empty]
    simp

theorem Orderly.post {c : Command} (orderly : Orderly posted m) (running : m.running = true)
    (fresh : ∀ h, c.registers = some h → h ∉ posted) : Orderly (posted ++ c.registers.toList) (m.post c) := by
  have queue : (m.post c).queued = m.queued ++ c.registers.toList := by
    unfold queued Monitor.post
    rw [List.filterMap_append]
    cases asked : c.registers <;> simp [asked]
  have new {k : Handle} (listed : k ∈ c.registers.toList) : k ∉ m.queued ∧ m.noticesOf k = [] := by
    have unknown := fresh k (Option.mem_toList.mp listed)
    refine ⟨fun there => unknown (orderly.asked k (.inl there)), ?_⟩
    by_contra told
    exact unknown (orderly.asked k (.inr told))
  refine ⟨orderly.fits, orderly.known, fun k listed => ?_, ?_, fun k either => ?_, fun k asked => ?_,
    fun stopped => ?_⟩
  · rw [queue] at listed
    rcases List.mem_append.mp listed with there | added
    · exact orderly.waiting k there
    · exact (new added).2
  · rw [queue]
    refine List.nodup_append.mpr ⟨orderly.distinct, ?_, fun k there j added same => ?_⟩
    · cases c.registers with
      | none => exact List.nodup_nil
      | some k => exact List.nodup_cons.mpr ⟨List.not_mem_nil, List.nodup_nil⟩
    · exact (new added).1 (same ▸ there)
  · rcases either with listed | told
    · rw [queue] at listed
      rcases List.mem_append.mp listed with there | added
      · exact List.mem_append_left _ (orderly.asked k (.inl there))
      · exact List.mem_append_right _ added
    · exact List.mem_append_left _ (orderly.asked k (.inr told))
  · rw [queue]
    rcases List.mem_append.mp asked with before | now
    · rcases orderly.pending k before with there | told
      · exact .inl (List.mem_append_left _ there)
      · exact .inr told
    · exact .inl (List.mem_append_right _ now)
  · exact absurd (running.symm.trans stopped) (by simp)

-- Whoever has been told something follows its course, whatever happens; the rest stays in order.
structure Proceeds (posted : List Handle) (m : Monitor) (event : Event) (m' : Monitor) : Prop where
  orderly : Orderly (posted ++ event.registers.toList) m'
  course : ∀ h, m.noticesOf h ≠ [] → Course h (m.isActive h, m.noticesOf h) (m'.isActive h, m'.noticesOf h)
  served : ∀ h, event.answers h = true → m'.noticesOf h ≠ []
  revoked : ∀ h, event.revokes h = true → m'.isActive h = false
  running : m.running = false → m'.running = false

theorem Orderly.silent (orderly : Orderly posted m) (silent : event.registers = none) :
    Orderly (posted ++ event.registers.toList) m := by
  rw [silent, Option.toList_none, List.append_nil]
  exact orderly

theorem Proceeds.of_evolves (orderly : Orderly posted m) (evolves : Evolves m m')
    (silent : event.registers = none) (other : ∀ h, event.answers h = false)
    (revoked : ∀ h, event.revokes h = true → m'.isActive h = false) : Proceeds posted m event m' := by
  refine ⟨(orderly.evolves evolves).silent silent, fun h _ => evolves.course h, fun h answers => ?_,
    revoked, fun stopped => ?_⟩
  · rw [other h] at answers
    cases answers
  · exact evolves.running.trans stopped

theorem proceeds_register {path : Path} {recursive : Bool} {reactions : List Reaction} {rest : List Command}
    (orderly : Orderly posted m) (queue : m.commands = .register h path recursive reactions :: rest) :
    Proceeds posted m (.serve (.register h path recursive reactions) d backend)
      ({ m with commands := rest }.register d backend h path recursive reactions).1 := by
  have queued : m.queued = h :: ({ m with commands := rest } : Monitor).queued := by
    unfold Monitor.queued
    rw [queue]
    rfl
  have untold : m.noticesOf h = [] := orderly.waiting h (by rw [queued]; exact List.mem_cons_self)
  have inactive : ({ m with commands := rest } : Monitor).isActive h = false := orderly.inactive untold
  have answered : Answered { m with commands := rest }
      ({ m with commands := rest }.register d backend h path recursive reactions).1 h :=
    answered_register inactive
  have kept := orderly.answered queued rfl rfl (fun _ => rfl) answered
  refine ⟨kept.silent rfl, fun k told => ?_, fun k answers => ?_, fun k revokes => ?_, fun stopped => ?_⟩
  · have other : k ≠ h := fun same => told (same ▸ untold)
    rw [isActive_eq, isActive_eq, answered.phases k other, answered.others k other]
    exact .stays
  · obtain rfl : h = k := by simpa [Event.answers, Command.registers] using answers
    rcases answered.told with ⟨e, told, _⟩ | ⟨s, told⟩
    · simp [told]
    · simp [told]
  · cases revokes
  · exact answered.running.trans stopped

theorem proceeds_serve {c : Command} {rest : List Command} (orderly : Orderly posted m)
    (queue : m.commands = c :: rest) :
    Proceeds posted m (.serve c d backend) ({ m with commands := rest }.onCommand d backend c).1 := by
  have popped (silent : c.registers = none) : Quiet m { m with commands := rest } := by
    refine ⟨rfl, ?_, rfl, fun _ => rfl⟩
    unfold queued
    rw [queue, List.filterMap_cons_none silent]
  cases c with
  | register => exact proceeds_register orderly queue
  | unregister k =>
    refine .of_evolves orderly ((popped rfl).evolves.trans evolves_cancel) rfl (fun _ => rfl)
      fun h revokes => ?_
    obtain rfl : k = h := by simpa [Event.revokes] using revokes
    show (cancel _ k).isActive k = false
    rw [isActive_cancel]
    simp
  | stop =>
    have refusing : Quiet { m with commands := rest } { m with commands := rest, accepting := false } :=
      ⟨rfl, rfl, rfl, fun _ => rfl⟩
    have evolves := ((popped rfl).trans refusing).evolves.trans evolves_cancelAll
    exact .of_evolves orderly evolves rfl (fun _ => rfl) fun h _ => isActive_cancelAll

theorem proceeds_drain (orderly : Orderly posted m) : Proceeds posted m .drain m.drain := by
  obtain ⟨running, _, phases⟩ := @refuseQueued_frame { m with running := false, commands := [] } m.commands
  have evolves := @evolves_drain m
  have kept := orderly.refused.evolves evolves
  refine ⟨kept.silent rfl, fun h told => ?_, fun h answers => ?_, fun h revokes => ?_, fun _ => ?_⟩
  · have absent : h ∉ m.queued := fun listed => told (orderly.waiting h listed)
    have course := evolves.course h
    rw [(noticesOf_refuseQueued m.commands orderly.distinct).1 absent, isActive_eq, phases h] at course
    rw [isActive_eq]
    exact course
  · cases answers
  · cases revokes
  · exact evolves.running.trans running

theorem proceeds_of_take? (orderly : Orderly posted m) (taken : m.take? event = some m')
    (fresh : ∀ h, event.registers = some h → h ∉ posted) : Proceeds posted m event m' := by
  cases taken_of_take? taken with
  | post running =>
    refine ⟨orderly.post running fresh, fun h _ => .stays, fun h answers => ?_, fun h revokes => ?_, id⟩
    · cases answers
    · cases revokes
  | signal => exact .of_evolves orderly quiet_signal.evolves rfl (fun _ => rfl) fun _ revokes => by cases revokes
  | @complete d c rest =>
    have popped : Quiet m { m with completions := rest } := ⟨rfl, rfl, rfl, fun _ => rfl⟩
    exact .of_evolves orderly (popped.evolves.trans evolves_onCompletion) rfl (fun _ => rfl)
      fun _ revokes => by cases revokes
  | serve queue => exact proceeds_serve orderly queue
  | drain => exact proceeds_drain orderly

theorem fresh_of_distinct (distinct : (posted ++ registered (event :: events)).Nodup) :
    ∀ h, event.registers = some h → h ∉ posted := by
  intro h asked listed
  rw [registered_cons, ← List.append_assoc] at distinct
  obtain ⟨_, _, apart⟩ := List.nodup_append.mp (List.nodup_append.mp distinct).1
  exact apart h listed h (by simp [asked]) rfl

-- What holds over a run, from any monitor in order on.
structure Follows (posted : List Handle) (m : Monitor) (events : List Event) (m' : Monitor) : Prop where
  orderly : Orderly (posted ++ registered events) m'
  course : ∀ h, m.noticesOf h ≠ [] → Course h (m.isActive h, m.noticesOf h) (m'.isActive h, m'.noticesOf h)
  running : m.running = false → m'.running = false

theorem Orderly.follows (orderly : Orderly posted m) (distinct : (posted ++ registered events).Nodup)
    (ran : m.run events = some m') : Follows posted m events m' := by
  induction events generalizing m posted with
  | nil =>
    cases ran
    refine ⟨?_, fun h _ => .stays, id⟩
    show Orderly (posted ++ []) _
    rwa [List.append_nil]
  | cons event rest ih =>
    obtain ⟨next, taken, later⟩ := Option.bind_eq_some_iff.mp ran
    have one := proceeds_of_take? orderly taken (fresh_of_distinct distinct)
    rw [registered_cons, ← List.append_assoc] at distinct
    have two := ih one.orderly distinct later
    refine ⟨?_, fun h told => ?_, fun stopped => two.running (one.running stopped)⟩
    · rw [registered_cons, ← List.append_assoc]
      exact two.orderly
    · have course := one.course h told
      exact course.thenOn (two.course h (course.told told))

-- What every event keeps while the monitor is in order, a run keeps.
theorem Orderly.keeps {P : Monitor → Prop} (step : ∀ {posted : List Handle} {m m' : Monitor} {event : Event},
    Orderly posted m → m.take? event = some m' → P m → P m') (orderly : Orderly posted m)
    (distinct : (posted ++ registered events).Nodup) (ran : m.run events = some m') (holds : P m) : P m' := by
  induction events generalizing m posted with
  | nil =>
    cases ran
    exact holds
  | cons event rest ih =>
    obtain ⟨next, taken, later⟩ := Option.bind_eq_some_iff.mp ran
    have one := proceeds_of_take? orderly taken (fresh_of_distinct distinct)
    rw [registered_cons, ← List.append_assoc] at distinct
    exact ih one.orderly distinct later (step orderly taken holds)

variable {settings : Settings} {one two : List Event}

-- A run from the start, cut at one of its events.
theorem stages (distinct : (registered (one ++ event :: two)).Nodup)
    (ran : (start settings).run (one ++ event :: two) = some m') : ∃ before after,
      (start settings).run one = some before ∧ before.take? event = some after ∧
      Proceeds (registered one) before event after ∧ Follows (registered (one ++ [event])) after two m' := by
  obtain ⟨before, after, first, taken, last⟩ := run_split ran
  have whole : registered (one ++ event :: two) = registered (one ++ [event]) ++ registered two := by
    rw [← registered_append, List.append_assoc]
    rfl
  have parts : registered (one ++ [event]) = registered one ++ event.registers.toList := by
    rw [registered_append, registered_cons]
    exact congrArg _ (List.append_nil _)
  rw [whole] at distinct
  have early : (registered one ++ event.registers.toList).Nodup := parts ▸ (List.nodup_append.mp distinct).1
  have follows := (Orderly.start settings).follows (List.nodup_append.mp early).1 first
  have proceeds := proceeds_of_take? follows.orderly taken fun h asked listed =>
    (List.nodup_append.mp early).2.2 h listed h (by simp [asked]) rfl
  have orderly := proceeds.orderly
  rw [List.nil_append, ← parts] at orderly
  exact ⟨before, after, first, taken, proceeds, orderly.follows distinct last⟩

theorem told_of_served (distinct : (registered events).Nodup) (ran : (start settings).run events = some m)
    (listed : event ∈ events) (serves : event.answers h = true) : m.noticesOf h ≠ [] := by
  obtain ⟨one, two, rfl⟩ := List.append_of_mem listed
  obtain ⟨before, after, _, _, proceeds, follows⟩ := stages distinct ran
  have told := proceeds.served h serves
  exact (follows.course h told).told told

theorem running_drain : m.drain.running = false :=
  evolves_drain.running.trans (@refuseQueued_frame { m with running := false, commands := [] } m.commands).1

theorem told_of_drained (distinct : (registered events).Nodup) (ran : (start settings).run events = some m)
    (drained : Event.drain ∈ events) (asked : h ∈ registered events) : m.noticesOf h ≠ [] := by
  have orderly := ((Orderly.start settings).follows distinct ran).orderly
  have stopped : m.running = false := by
    obtain ⟨one, two, rfl⟩ := List.append_of_mem drained
    obtain ⟨before, after, _, taken, _, follows⟩ := stages distinct ran
    refine follows.running ?_
    simp only [take?] at taken
    split at taken
    · cases taken
      exact running_drain
    · cases taken
  rcases orderly.pending h asked with queued | told
  · rw [orderly.closed stopped] at queued
    cases queued
  · exact told

theorem ended_of_revoked {late : Event} (distinct : (registered (one ++ late :: two)).Nodup)
    (ran : (start settings).run (one ++ late :: two) = some m) (early : ∃ event ∈ one, event.answers h = true)
    (revokes : late.revokes h = true) : m.noticesOf h ≠ [] ∧ m.isActive h = false := by
  obtain ⟨event, listed, serves⟩ := early
  obtain ⟨before, after, first, _, proceeds, follows⟩ := stages distinct ran
  have told : m.noticesOf h ≠ [] := told_of_served distinct ran (List.mem_append_left _ listed) serves
  rw [registered_append] at distinct
  have known : before.noticesOf h ≠ [] :=
    told_of_served (List.nodup_append.mp distinct).1 first listed serves
  have still := (proceeds.course h known).told known
  have same := (follows.course h still).ended_stays (proceeds.revoked h revokes)
  exact ⟨told, (congrArg Prod.fst same).trans (proceeds.revoked h revokes)⟩

theorem ended_of_last {n : Notice} (orderly : Orderly posted m) (listed : n ∈ m.notices) (named : n.handle = h)
    (last : n.isLast = true) : m.noticesOf h ≠ [] ∧ m.isActive h = false := by
  have told : n ∈ m.noticesOf h := List.mem_filter.mpr ⟨listed, by simp [named]⟩
  refine ⟨List.ne_nil_of_mem told, ?_⟩
  cases active : m.isActive h with
  | false => rfl
  | true =>
    have running := (orderly.fits h).2 active
    rw [running.not_last told] at last
    cases last

-- Over every run: what a watch tells fits together, a registration that was served or drained is answered
-- once, and nothing is told of a watch any more once it has been given up or has failed.
theorem notices_follow_protocol {first rest : List Event} (distinct : (registered (first ++ rest)).Nodup)
    (ran : (start settings).run first = some m) (went : m.run rest = some m') (h : Handle) :
    Conforms h (m.noticesOf h) ∧
      ((∃ event ∈ first, event.answers h = true) ∨ Event.drain ∈ first ∧ h ∈ registered first →
        ((m.noticesOf h).filter isAnswer).length = 1) ∧
      ((∃ one late two, first = one ++ late :: two ∧ (∃ event ∈ one, event.answers h = true) ∧
          late.revokes h = true) ∨ (∃ n ∈ m.notices, n.handle = h ∧ n.isLast = true) →
        m'.noticesOf h = m.noticesOf h) := by
  have parts := distinct
  rw [registered_append] at parts
  have early := (List.nodup_append.mp parts).1
  have orderly := ((Orderly.start settings).follows early ran).orderly
  have conforms := (orderly.fits h).1
  refine ⟨conforms, fun answered => conforms.answers ?_, fun given => ?_⟩
  · rcases answered with ⟨event, listed, serves⟩ | ⟨drained, asked⟩
    · exact told_of_served early ran listed serves
    · exact told_of_drained early ran drained asked
  · have ended : m.noticesOf h ≠ [] ∧ m.isActive h = false := by
      rcases given with ⟨one, late, two, rfl, served, revokes⟩ | ⟨n, listed, named, last⟩
      · exact ended_of_revoked early ran served revokes
      · exact ended_of_last orderly listed named last
    have follows := orderly.follows parts went
    exact congrArg Prod.snd ((follows.course h ended.1).ended_stays ended.2)

namespace Sample

open Reconcile.Sample

def asked : Command := .register ⟨1⟩ watched true []

def opening : List Event :=
  [.post asked, .serve asked filled fun _ _ => .plain, .signal ⟨1⟩ (.deliver [⟨.removed, .ofName name⟩]),
    .post (.unregister ⟨1⟩)]

def leaving : Event := .serve (.unregister ⟨1⟩) bare fun _ _ => .plain

def remainder : List Event := [.complete bare, .complete bare]

end Sample

theorem notices_follow_protocol_unregistered : ∃ m m',
    (start .defaults).run (Sample.opening ++ [Sample.leaving]) = some m ∧ m.run Sample.remainder = some m' ∧
      m.noticesOf ⟨1⟩ = [.registered ⟨1⟩ Reconcile.Sample.held] ∧ m'.noticesOf ⟨1⟩ = m.noticesOf ⟨1⟩ := by
  refine ⟨_, _, rfl, rfl, rfl, ?_⟩
  have distinct : (registered ((Sample.opening ++ [Sample.leaving]) ++ Sample.remainder)).Nodup := by decide
  have served : ∃ event ∈ Sample.opening, event.answers ⟨1⟩ = true :=
    ⟨.serve Sample.asked Reconcile.Sample.filled fun _ _ => .plain, by simp [Sample.opening], rfl⟩
  have told := @notices_follow_protocol _ _ .defaults _ _ distinct rfl rfl ⟨1⟩
  exact told.2.2 (.inl ⟨_, _, [], rfl, served, rfl⟩)

end DirWatch.Monitor
