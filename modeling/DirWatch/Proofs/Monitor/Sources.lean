import DirWatch.Proofs.Monitor.Heard
import DirWatch.Proofs.Monitor.Protocol

namespace DirWatch.Monitor

variable {m m' m'' : Monitor} {h k : Handle} {w : Watch} {d : Disk} {backend : Backend} {notice : Notice}
  {reactions : List Reaction} {error : MonitorError} {outcome : Outcome} {buffer : Buffer} {event : Event}
  {posted : List Handle}

-- No source is opened, and every watch that is left reacts as before.
structure Fixed (m m' : Monitor) : Prop where
  sources : m'.sources = m.sources
  reactions : ∀ h w, m'.watch? h = some w → ∃ v, m.watch? h = some v ∧ w.reactions = v.reactions

theorem Fixed.refl (m : Monitor) : Fixed m m := ⟨rfl, fun _ w seen => ⟨w, seen, rfl⟩⟩

theorem Fixed.trans (one : Fixed m m') (two : Fixed m' m'') : Fixed m m'' := by
  refine ⟨two.sources.trans one.sources, fun h w seen => ?_⟩
  obtain ⟨v, between, same⟩ := two.reactions h w seen
  obtain ⟨u, before, equal⟩ := one.reactions h v between
  exact ⟨u, before, same.trans equal⟩

theorem Fixed.of_same (sources : m'.sources = m.sources) (watches : m'.watches = m.watches) : Fixed m m' := by
  refine ⟨sources, fun h w seen => ⟨w, ?_, rfl⟩⟩
  rw [← seen]
  exact congrArg _ watches.symm

theorem Hears.fixed (hears : Hears m m') (sources : m'.sources = m.sources) : Fixed m m' := by
  refine ⟨sources, fun h w seen => ?_⟩
  obtain ⟨v, _, before, same, _⟩ := hears.before seen
  exact ⟨v, before, by rw [same]⟩

theorem Amends.fixed {f : Watch → Watch} {new : List Status} (amends : Amends h f new m m')
    (keeps : ∀ w, (f w).reactions = w.reactions) (sources : m'.sources = m.sources) : Fixed m m' := by
  refine ⟨sources, fun k w seen => ?_⟩
  rw [amends.watches] at seen
  split at seen
  · rename_i same
    obtain ⟨v, before, rfl⟩ := Option.map_eq_some_iff.mp seen
    exact ⟨v, same ▸ before, keeps v⟩
  · exact ⟨w, seen, rfl⟩

@[simp]
theorem sources_send {status : Option Status} : (m.send h status).sources = m.sources := by cases status <;> rfl

@[simp]
theorem sources_signal {s : Signal} : (m.signal h s).sources = m.sources := by
  unfold signal
  split
  · exact sources_send
  · rfl

@[simp]
theorem sources_perform {act : Act} : (m.perform h act).1.sources = m.sources := by
  cases act with
  | stop => rfl
  | countRequests => rfl
  | unregister =>
    simp only [perform, unregister]
    cases m.running <;> rfl
  | signal source s =>
    simp only [perform]
    cases m.sources[source]? with
    | none => rfl
    | some fed => exact sources_signal
  | askCancelled source =>
    simp only [perform]
    cases m.sources[source]? <;> rfl

@[simp]
theorem sources_react : (m.react notice reactions).sources = m.sources := by
  induction reactions generalizing m with
  | nil => rfl
  | cons r rest ih =>
    unfold react
    split
    · exact ih.trans sources_perform
    · exact ih

theorem fixed_tell : Fixed m (m.tell reactions notice) := hears_tell.fixed sources_react

theorem fixed_tellWatch : Fixed m (m.tellWatch notice) := by
  unfold tellWatch
  split
  · exact fixed_tell
  · exact .refl m

theorem fixed_arm : Fixed m (m.arm h buffer).1 := by
  unfold arm
  split
  · split
    · exact amends_setSlot.fixed (fun _ => rfl) sources_send
    · exact .refl m
  · exact .refl m

theorem sources_cancel : (m.cancel h).sources = m.sources := by
  unfold cancel
  split
  · split
    · exact sources_send
    · rfl
  · rfl

theorem fixed_cancel : Fixed m (m.cancel h) := by
  cases active : m.isActive h with
  | false =>
    rw [cancel_of_inactive active]
    exact .refl m
  | true =>
    obtain ⟨w, seen⟩ := watch_of_active active
    have active : w.state = .active := by simpa [isActive_of_seen seen] using active
    exact (amends_cancel seen active).fixed (fun _ => rfl) sources_cancel

theorem fixed_fail : Fixed m (m.fail h error) := by
  unfold fail
  split
  · exact fixed_tellWatch.trans fixed_cancel
  · exact .refl m

theorem fixed_failIf {e : Option MonitorError} : Fixed m (m.failIf h e) := by
  cases e with
  | none => exact .refl m
  | some e => exact fixed_fail

theorem fixed_rootRemoved : Fixed m (m.rootRemoved h) := by
  unfold rootRemoved
  split
  · exact fixed_fail
  · exact .refl m

theorem fixed_deliver : Fixed m (m.deliver h outcome) := by
  have taken : Fixed m (m.setSnapshot h outcome.snapshot) := amends_setSnapshot.fixed (fun _ => rfl) rfl
  refine taken.trans ?_
  unfold deliver
  dsimp only
  split
  · have told : Fixed (m.setSnapshot h outcome.snapshot)
        (if outcome.changes.isEmpty then m.setSnapshot h outcome.snapshot
          else (m.setSnapshot h outcome.snapshot).tellWatch (.changed h outcome.changes)) := by
      split
      · exact .refl _
      · exact fixed_tellWatch
    split
    · exact told.trans fixed_rootRemoved
    · exact told
  · exact .refl _

theorem fixed_release : Fixed m (m.release h) := by
  refine ⟨?_, fun k w seen => ?_⟩
  · unfold release
    split <;> rfl
  · rw [watch?_release] at seen
    split at seen
    · cases seen
    · exact ⟨w, seen, rfl⟩

theorem fixed_onNotifications : Fixed m (m.onNotifications d w buffer) := by
  have armed : Fixed m (m.arm w.handle buffer.take.2).1 := fixed_arm
  exact (armed.trans fixed_deliver).trans fixed_failIf

theorem fixed_onOverflow : Fixed m (m.onOverflow d w buffer) := by
  have armed : Fixed m (m.arm w.handle buffer).1 := fixed_arm
  refine Fixed.trans (armed.trans ?_) fixed_failIf
  split
  · exact fixed_deliver
  · exact fixed_fail

theorem fixed_onFailure : Fixed m (m.onFailure d w error) := by
  refine Fixed.trans ?_ fixed_fail
  split
  · exact .refl m
  · exact fixed_deliver

theorem fixed_onCompletion {c : Completion} : Fixed m (m.onCompletion d c) := by
  unfold onCompletion
  split
  · exact fixed_release
  · exact .refl m
  · split
    · split
      · exact fixed_onNotifications
      · exact fixed_onOverflow
      · exact fixed_onFailure
      · exact .refl m
    · exact .refl m

theorem fixed_refuseQueued (cs : List Command) : Fixed m (m.refuseQueued cs) := by
  induction cs generalizing m with
  | nil => exact .refl m
  | cons c rest ih =>
    cases c with
    | register h path recursive reactions => exact fixed_tell.trans ih
    | unregister => exact ih
    | stop => exact ih

theorem fixed_cancels (handles : List Handle) : Fixed m (handles.foldl cancel m) := by
  induction handles generalizing m with
  | nil => exact .refl m
  | cons h rest ih => exact fixed_cancel.trans ih

theorem fixed_cancelAll : Fixed m m.cancelAll := fixed_cancels _

theorem fixed_releaseAborted (cs : List Completion) : Fixed m (m.releaseAborted cs) := by
  induction cs generalizing m with
  | nil => exact .refl m
  | cons c rest ih =>
    unfold releaseAborted
    split
    · exact fixed_release.trans ih
    · exact ih

theorem fixed_drain : Fixed m m.drain := by
  have stopped : Fixed m { m with running := false, commands := [] } := .of_same rfl rfl
  unfold drain
  refine (stopped.trans (fixed_refuseQueued m.commands)).trans (fixed_cancelAll.trans ?_)
  refine Fixed.trans ?_ (fixed_releaseAborted _)
  exact .of_same rfl rfl

-- A source is opened for a watch, which reacts as its registration says.
structure Opened (h : Handle) (reactions : List Reaction) (m m' : Monitor) : Prop where
  sources : m'.sources = m.sources ++ [h]
  reactions : ∀ k w, m'.watch? k = some w →
    (∃ v, m.watch? k = some v ∧ w.reactions = v.reactions) ∨ w.reactions = reactions

theorem Opened.fixed (opened : Opened h reactions m m') (fixed : Fixed m' m'') : Opened h reactions m m'' := by
  refine ⟨fixed.sources.trans opened.sources, fun k w seen => ?_⟩
  obtain ⟨v, before, same⟩ := fixed.reactions k w seen
  rw [same]
  exact opened.reactions k v before

theorem opened_enter : Opened w.handle w.reactions m (m.enter w) := by
  refine ⟨rfl, fun k v seen => ?_⟩
  unfold watch? enter at seen
  rw [List.find?_append, Option.or_eq_some_iff] at seen
  rcases seen with old | ⟨_, new⟩
  · exact .inl ⟨v, old, rfl⟩
  · exact .inr (by rw [List.mem_singleton.mp (List.mem_of_find?_eq_some new)])

theorem opened_openWatch {root : Path} {recursive : Bool} {signals : List Signal} :
    Opened h reactions m (m.openWatch d h root recursive reactions signals) := by
  have entered : Opened h reactions m (m.enter (m.opened h root recursive reactions signals)) :=
    @opened_enter m (m.opened h root recursive reactions signals)
  have armed := entered.fixed (@fixed_arm _ h .empty)
  rcases openWatch_cases m d h root recursive reactions signals with ⟨_, s, _, became⟩ | ⟨e, became⟩
  · rw [became]
    exact armed.fixed (.trans (amends_setSnapshot.fixed (fun _ => rfl) rfl) fixed_tell)
  · rw [became]
    exact armed.fixed (fixed_cancel.trans fixed_tell)

-- What a registration opens, unless it is refused: a root, the disk that is scanned then, and what its source has
-- signalled by that time. The monitor only has to accept registrations.
def admitted (accepting : Bool) (d : Disk) (backend : Backend) (path : Path) (recursive : Bool) :
    Except MonitorError (Path × Disk × List Signal) :=
  if !accepting then .error .stopped
  else match d.canonical path with
    | .error e => .error (.ofRootFault path e.fault)
    | .ok root =>
      if !d.isDir root then .error (.notADirectory root.display)
      else
        let opening := backend root recursive
        match opening.refusal with
        | some e => .error e
        | none => .ok (root, d.applyAll opening.edits, opening.signals)

theorem register_eq {path : Path} {recursive : Bool} :
    (m.register d backend h path recursive reactions).1 =
      match admitted m.accepting d backend path recursive with
      | .error e => m.refuse h reactions e
      | .ok (root, d, signals) => m.openWatch d h root recursive reactions signals := by
  unfold register admitted
  split
  · rfl
  · cases d.canonical path with
    | error e => rfl
    | ok root =>
      dsimp only
      split
      · rfl
      · cases (backend root recursive).refusal <;> rfl

theorem register_cases {path : Path} {recursive : Bool} :
    Fixed m (m.register d backend h path recursive reactions).1 ∨
      Opened h reactions m (m.register d backend h path recursive reactions).1 := by
  rw [register_eq]
  split
  · exact .inl fixed_tell
  · exact .inr opened_openWatch

theorem take?_cases (taken : m.take? event = some m') : Fixed m m' ∨
    ∃ h path recursive reactions d backend rest, event = .serve (.register h path recursive reactions) d backend ∧
      m.commands = .register h path recursive reactions :: rest ∧ Opened h reactions m m' := by
  cases taken_of_take? taken with
  | post => exact .inl (.of_same rfl rfl)
  | signal => exact .inl (hears_signal.fixed sources_signal)
  | @complete d c rest =>
    have popped : Fixed m { m with completions := rest } := .of_same rfl rfl
    exact .inl (popped.trans fixed_onCompletion)
  | @serve c d backend rest queue =>
    have popped : Fixed m { m with commands := rest } := .of_same rfl rfl
    cases c with
    | register h path recursive reactions =>
      have outcome : Fixed { m with commands := rest } _ ∨ Opened h reactions { m with commands := rest } _ :=
        @register_cases _ h d backend reactions path recursive
      rcases outcome with fixed | opened
      · exact .inl (popped.trans fixed)
      · exact .inr ⟨h, path, recursive, reactions, d, backend, rest, rfl, queue, opened.sources, opened.reactions⟩
    | unregister k => exact .inl (popped.trans fixed_cancel)
    | stop =>
      have refusing : Fixed m { m with commands := rest, accepting := false } := .of_same rfl rfl
      exact .inl (refusing.trans fixed_cancelAll)
  | drain => exact .inl fixed_drain

theorem sources_take? (taken : m.take? event = some m') : m.sources <+: m'.sources := by
  rcases take?_cases taken with fixed | ⟨h, _, _, _, _, _, _, _, _, opened⟩
  · rw [fixed.sources]
  · exact ⟨[h], opened.sources.symm⟩

theorem sources_run {events : List Event} (ran : m.run events = some m') : m.sources <+: m'.sources := by
  induction events generalizing m with
  | nil =>
    cases ran
    exact List.prefix_refl _
  | cons event rest ih =>
    obtain ⟨next, taken, later⟩ := Option.bind_eq_some_iff.mp ran
    exact (sources_take? taken).trans (ih later)

-- Each source was opened for another watch, one whose registration has been answered.
structure Listed (m : Monitor) : Prop where
  distinct : m.sources.Nodup
  told : ∀ h ∈ m.sources, m.noticesOf h ≠ []

theorem Listed.next (orderly : Orderly posted m) (proceeds : Proceeds posted m event m')
    (taken : m.take? event = some m') (listed : Listed m) : Listed m' := by
  have told (h : Handle) (known : h ∈ m.sources) : m'.noticesOf h ≠ [] :=
    (proceeds.course h (listed.told h known)).told (listed.told h known)
  rcases take?_cases taken with fixed | ⟨h, path, recursive, reactions, d, backend, rest, rfl, queue, opened⟩
  · exact ⟨fixed.sources ▸ listed.distinct, fun h known => told h (fixed.sources ▸ known)⟩
  · -- whoever waits for an answer has no source yet
    have new : h ∉ m.sources := fun known => listed.told h known (orderly.waiting h (mem_queued queue rfl))
    refine ⟨?_, fun k known => ?_⟩
    · rw [opened.sources]
      have one : [h].Nodup := List.nodup_cons.mpr ⟨List.not_mem_nil, List.nodup_nil⟩
      refine List.nodup_append.mpr ⟨listed.distinct, one, fun k known j last same => ?_⟩
      exact new (List.mem_singleton.mp last ▸ same ▸ known)
    · rw [opened.sources] at known
      rcases List.mem_append.mp known with old | now
      · exact told k old
      · obtain rfl := List.mem_singleton.mp now
        exact proceeds.served k (by simp [Event.answers, Command.registers])

theorem Listed.run {events : List Event} (listed : Listed m) (orderly : Orderly posted m)
    (distinct : (posted ++ registered events).Nodup) (ran : m.run events = some m') : Listed m' := by
  induction events generalizing m posted with
  | nil =>
    cases ran
    exact listed
  | cons event rest ih =>
    obtain ⟨next, taken, later⟩ := Option.bind_eq_some_iff.mp ran
    have proceeds := proceeds_of_take? orderly taken (fresh_of_distinct distinct)
    rw [registered_cons, ← List.append_assoc] at distinct
    exact ih (listed.next orderly proceeds taken) proceeds.orderly distinct later

theorem sources_nodup {settings : Settings} {events : List Event} (distinct : (registered events).Nodup)
    (ran : (start settings).run events = some m) : m.sources.Nodup :=
  (Listed.run ⟨List.nodup_nil, fun _ known => by cases known⟩ (Orderly.start settings) distinct ran).distinct

end DirWatch.Monitor
