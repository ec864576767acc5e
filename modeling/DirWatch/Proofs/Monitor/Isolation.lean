import DirWatch.Proofs.Monitor.Alone

namespace DirWatch

def Act.calls (sources : List Handle) (h : Handle) : Act → Option Signal
  | .signal source s => if sources[source]? = some h then some s else none
  | _ => none

def Act.isCall : Act → Bool
  | .signal .. | .askCancelled .. => true
  | _ => false

theorem Act.alone_of_still {act : Act} {own : Nat} (still : act.isCall = false) : act.alone own = some act := by
  cases act <;> first | rfl | cases still

theorem Act.calls_of_still {act : Act} {sources : List Handle} {h : Handle} (still : act.isCall = false) :
    act.calls sources h = none := by
  cases act <;> first | rfl | cases still

namespace Monitor

variable {m m' m'' n : Monitor} {h k : Handle} {own : Nat} {w : Watch} {d : Disk} {backend : Backend}
  {notice : Notice} {sources : List Handle} {reactions : List Reaction} {error : MonitorError} {outcome : Outcome}
  {buffer : Buffer} {slot : Slot} {s : Snapshot} {event : Event} {events : List Event}

def calls (sources : List Handle) (h : Handle) (reactions : List Reaction) (told : List Notice) : List Signal :=
  told.flatMap fun notice =>
    (reactions.filter (·.occasion = notice.occasion)).filterMap (·.act.calls sources h)

def heard (n : Monitor) (h : Handle) (signals : List Signal) : Monitor := signals.foldl (·.signal h ·) n

def Event.about? (m : Monitor) : Event → Option Handle
  | .post c | .serve c .. => c.about?
  | .signal h _ => some h
  | .complete _ => m.completions.head?.map Completion.handle
  | .drain => none

def Event.reactsWith (m : Monitor) : Event → List Reaction
  | .complete _ => ((m.completions.head?.bind fun c => m.watch? c.handle).map Watch.reactions).getD []
  | .serve (.register _ _ _ reactions) .. => reactions
  | _ => []

def Event.stops : Event → Bool
  | .post .stop | .serve .stop .. | .drain => true
  | _ => false

def Event.alone (own : Nat) : Event → Event
  | .post c => .post (c.alone own)
  | .serve c d backend => .serve (c.alone own) d backend
  | event => event

-- What is told to the source of `h` in the course of an event that leads from `m` to `next`.
def Event.calls (h : Handle) (m next : Monitor) (event : Event) : List Signal :=
  Monitor.calls next.sources h (event.reactsWith m) (next.notices.drop m.notices.length)

def Event.isolated (h : Handle) (own : Nat) (m next : Monitor) (event : Event) : List Event :=
  if event.about? m = some h then [event.alone own] else (event.calls h m next).map (.signal h)

-- What is left of a run from `m` on: the steps that are about `h`, and the calls of its source.
def isolated (h : Handle) (own : Nat) (m : Monitor) : List Event → List Event
  | [] => []
  | event :: rest =>
    match m.take? event with
    | some next => event.isolated h own m next ++ isolated h own next rest
    | none => []

def kept (h : Handle) (m : Monitor) : List Event → List Event
  | [] => []
  | event :: rest =>
    match m.take? event with
    | some next => (if event.about? m = some h then [event] else []) ++ kept h next rest
    | none => []

def silent (reactions : List Reaction) : Bool := reactions.all (!·.act.isCall)

def Command.silent : Command → Bool
  | .register _ _ _ reactions => Monitor.silent reactions
  | _ => true

def Event.silent : Event → Bool
  | .post c | .serve c .. => Command.silent c
  | _ => true

-- What the steps of other watches come to: notices that `n` is not told, and calls that it hears.
def Aside (h : Handle) (own : Nat) (sources : List Handle) (reactions : List Reaction) (m m' : Monitor) : Prop :=
  ∃ told, m'.notices = m.notices ++ told ∧
    ∀ n, Alone h own m n → Alone h own m' (n.heard h (calls sources h reactions told))

namespace Aside

theorem of_same (notices : m'.notices = m.notices) (same : ∀ n, Alone h own m n → Alone h own m' n) :
    Aside h own sources reactions m m' := ⟨[], by rw [notices, List.append_nil], same⟩

theorem refl (m : Monitor) : Aside h own sources reactions m m := .of_same rfl fun _ alone => alone

theorem trans (one : Aside h own sources reactions m m') (two : Aside h own sources reactions m' m'') :
    Aside h own sources reactions m m'' := by
  obtain ⟨first, notices, alone⟩ := one
  obtain ⟨later, more, still⟩ := two
  refine ⟨first ++ later, by rw [more, notices, List.append_assoc], fun n before => ?_⟩
  have both := still _ (alone n before)
  rw [heard, heard, ← List.foldl_append] at both
  rwa [calls, List.flatMap_append]

end Aside

-- The receiver of the watch `k` reacts like this, and the sources are these.
structure Reacts (k : Handle) (sources : List Handle) (reactions : List Reaction) (m : Monitor) : Prop where
  sources : m.sources = sources
  reactions : ∀ w, m.watch? k = some w → w.reactions = reactions

theorem Reacts.fixed (reacts : Reacts k sources reactions m) (fixed : Fixed m m') :
    Reacts k sources reactions m' := by
  refine ⟨fixed.sources.trans reacts.sources, fun w seen => ?_⟩
  obtain ⟨v, before, same⟩ := fixed.reactions k w seen
  exact same.trans (reacts.reactions v before)

namespace Alone

variable (alone : Alone h own m n)

section Other

variable (other : k ≠ h)
include alone other

theorem perform_other {act : Act} :
    Alone h own (m.perform k act).1 (n.heard h (act.calls m.sources h).toList) := by
  cases act with
  | stop => exact alone
  | countRequests => exact alone
  | unregister =>
    simp only [Monitor.perform, Monitor.unregister]
    cases m.running with
    | false => exact alone
    | true => exact alone.post_other fun same => other (Option.some.inj same)
  | signal source s =>
    simp only [Monitor.perform, Act.calls]
    cases found : m.sources[source]? with
    | none => exact alone
    | some fed =>
      by_cases here : fed = h
      · subst here
        rw [if_pos rfl]
        exact alone.signal
      · rw [if_neg fun same => here (Option.some.inj same)]
        exact alone.signal_other here
  | askCancelled source =>
    simp only [Monitor.perform]
    cases m.sources[source]? <;> exact alone

theorem react_other (about : notice.handle = k) : Alone h own (m.react notice reactions)
    (n.heard h ((reactions.filter (·.occasion = notice.occasion)).filterMap (·.act.calls m.sources h))) := by
  induction reactions generalizing m n with
  | nil => exact alone
  | cons r rest ih =>
    by_cases met : r.occasion = notice.occasion
    · obtain ⟨answers, acted⟩ := @react_met m notice rest r met
      have acting : Alone h own { (m.perform k r.act).1 with answers }
          (n.heard h (r.act.calls m.sources h).toList) := (alone.perform_other other).congr rfl rfl
      have next := ih acting
      rw [acted, about, List.filter_cons_of_pos (by simpa using met)]
      have same : ({ (m.perform k r.act).1 with answers } : Monitor).sources = m.sources := sources_perform
      have parts (l : List Reaction) : (r :: l).filterMap (·.act.calls m.sources h) =
          (r.act.calls m.sources h).toList ++ l.filterMap (·.act.calls m.sources h) := by
        cases called : r.act.calls m.sources h <;> simp [called]
      rw [same, heard, heard, ← List.foldl_append] at next
      rw [parts]
      exact next
    · rw [react_missed met, List.filter_cons_of_neg (by simpa using met)]
      exact ih alone

end Other

end Alone

section Other

variable (other : k ≠ h)
include other

theorem aside_tell (fed : m.sources = sources) (about : notice.handle = k) :
    Aside h own sources reactions m (m.tell reactions notice) := by
  refine ⟨[notice], ?_, fun n alone => ?_⟩
  · exact quiet_tell.notices
  · have told : Alone h own { m with notices := m.notices ++ [notice] } n := by
      refine { alone with notices := ?_ }
      simp [alone.notices, about, other]
    rw [calls, List.flatMap_singleton, ← fed]
    exact told.react_other other about

theorem aside_cancel : Aside h own sources reactions m (m.cancel k) := by
  refine .of_same cancel_frame.2.2 fun n alone => ?_
  unfold cancel
  split
  · split
    · refine Alone.send_other (Alone.congr (alone.update_other other ?_) rfl rfl) other
      exact fun _ => rfl
    · exact alone
  · exact alone

theorem aside_setSnapshot : Aside h own sources reactions m (m.setSnapshot k s) :=
  .of_same rfl fun _ alone => alone.update_other other fun _ => rfl

theorem aside_arm : Aside h own sources reactions m (m.arm k buffer).1 := by
  refine .of_same quiet_arm.notices fun n alone => ?_
  unfold arm
  split
  · split
    · exact (alone.setSlot_other other).send_other other
    · exact alone
  · exact alone

theorem aside_release : Aside h own sources reactions m (m.release k) := by
  refine .of_same ?_ fun n alone => ?_
  · unfold release
    split <;> rfl
  · unfold release
    split
    · refine { alone with watches := ?_ }
      show n.watches = ((m.watches.filter (·.handle != k)).filter (·.handle = h)).map _
      rw [alone.watches, List.filter_filter]
      congr 1
      apply List.filter_congr
      intro w _
      by_cases same : w.handle = h <;> simp [same, Ne.symm other]
    · exact alone

section Registration

variable (fed : m.sources = sources)
include fed

theorem aside_refuse : Aside h own sources reactions m (m.refuse k reactions error) := aside_tell other fed rfl

theorem aside_concluded {e : Option MonitorError} {scanned : Except MonitorError Snapshot} :
    Aside h own sources reactions m (m.concluded k reactions e scanned) := by
  unfold concluded
  split
  · exact (aside_setSnapshot other).trans (aside_tell other fed rfl)
  · exact (aside_cancel other).trans (aside_refuse other (sources_cancel.trans fed))
  · exact (aside_cancel other).trans (aside_refuse other (sources_cancel.trans fed))

end Registration

theorem aside_enter (named : w.handle = k) (numbered : Numbered h own (m.sources ++ [k])) :
    Aside h own sources reactions m (m.enter w) := by
  subst named
  refine .of_same rfl fun n alone => ?_
  refine { alone with watches := ?_, numbered := numbered, sources := ?_ }
  · simp [enter, alone.watches, other]
  · simp [enter, alone.sources, other]

theorem aside_openWatch {root : Path} {recursive : Bool} {signals : List Signal}
    (numbered : Numbered h own sources) (fed : m.sources ++ [k] = sources) :
    Aside h own sources reactions m (m.openWatch d k root recursive reactions signals) := by
  subst fed
  have entered : Aside h own (m.sources ++ [k]) reactions m (m.enter (m.opened k root recursive reactions signals)) :=
    aside_enter other rfl numbered
  rw [openWatch_eq]
  exact (entered.trans (aside_arm other)).trans (aside_concluded other fixed_arm.sources)

theorem aside_register {path : Path} {recursive : Bool}
    (fed : (m.register d backend k path recursive reactions).1.sources = sources)
    (numbered : Numbered h own sources) :
    Aside h own sources reactions m (m.register d backend k path recursive reactions).1 := by
  rw [register_eq] at fed ⊢
  cases asked : admitted m.accepting d backend path recursive with
  | error e =>
    rw [asked] at fed
    have same : (m.refuse k reactions e).sources = m.sources := fixed_tell.sources
    exact aside_refuse other (same.symm.trans fed)
  | ok opening =>
    rw [asked] at fed
    exact aside_openWatch other numbered (opened_openWatch.sources.symm.trans fed)

section Reacting

variable (reacts : Reacts k sources reactions m)
include reacts

theorem aside_tellWatch (about : notice.handle = k) :
    Aside h own sources reactions m (m.tellWatch notice) := by
  unfold tellWatch
  split
  · rename_i w seen
    rw [reacts.reactions w (about ▸ seen)]
    exact aside_tell other reacts.sources about
  · exact .refl m

theorem aside_fail : Aside h own sources reactions m (m.fail k error) := by
  unfold fail
  split
  · exact (aside_tellWatch other reacts rfl).trans (aside_cancel other)
  · exact .refl m

theorem aside_failIf {e : Option MonitorError} : Aside h own sources reactions m (m.failIf k e) := by
  cases e with
  | none => exact .refl m
  | some e => exact aside_fail other reacts

theorem aside_rootRemoved : Aside h own sources reactions m (m.rootRemoved k) := by
  unfold rootRemoved
  split
  · exact aside_fail other reacts
  · exact .refl m

theorem aside_deliver : Aside h own sources reactions m (m.deliver k outcome) := by
  have taken : Aside h own sources reactions m (m.setSnapshot k outcome.snapshot) := aside_setSnapshot other
  have first : Reacts k sources reactions (m.setSnapshot k outcome.snapshot) :=
    reacts.fixed (amends_setSnapshot.fixed (fun _ => rfl) rfl)
  refine taken.trans ?_
  unfold deliver
  dsimp only
  split
  · split
    · rename_i removed
      split
      · exact aside_rootRemoved other first
      · exact (aside_tellWatch other first rfl).trans (aside_rootRemoved other (first.fixed fixed_tellWatch))
    · split
      · exact .refl _
      · exact aside_tellWatch other first rfl
  · exact .refl _

theorem aside_onNotifications (named : w.handle = k) :
    Aside h own sources reactions m (m.onNotifications d w buffer) := by
  subst named
  have armed := reacts.fixed (@fixed_arm m w.handle buffer.take.2)
  have first : Aside h own sources reactions m (m.arm w.handle buffer.take.2).1 := aside_arm other
  exact (first.trans (aside_deliver other armed)).trans (aside_failIf other (armed.fixed fixed_deliver))

theorem aside_onOverflow (named : w.handle = k) :
    Aside h own sources reactions m (m.onOverflow d w buffer) := by
  subst named
  have armed := reacts.fixed (@fixed_arm m w.handle buffer)
  have first : Aside h own sources reactions m (m.arm w.handle buffer).1 := aside_arm other
  unfold onOverflow
  dsimp only
  split
  · exact (first.trans (aside_deliver other armed)).trans (aside_failIf other (armed.fixed fixed_deliver))
  · exact (first.trans (aside_fail other armed)).trans (aside_failIf other (armed.fixed fixed_fail))

theorem aside_onFailure (named : w.handle = k) :
    Aside h own sources reactions m (m.onFailure d w error) := by
  subst named
  unfold onFailure
  dsimp only
  split
  · exact aside_fail other reacts
  · exact (aside_deliver other reacts).trans (aside_fail other (reacts.fixed fixed_deliver))

theorem aside_onCompletion {c : Completion} (named : c.handle = k) :
    Aside h own sources reactions m (m.onCompletion d c) := by
  unfold onCompletion
  rw [named]
  split
  · exact aside_release other
  · exact .refl m
  · rename_i w seen _
    have here : w.handle = k := handle_of_watch? seen
    split
    · split
      · exact aside_onNotifications other reacts here
      · exact aside_onOverflow other reacts here
      · exact aside_onFailure other reacts here
      · exact .refl m
    · exact .refl m

end Reacting

end Other

section Step

theorem Alone.step (alone : Alone h own m n) (taken : m.take? event = some m') (about : event.about? m = some h)
    (numbered : Numbered h own m'.sources) :
    ∃ n', n.take? (event.alone own) = some n' ∧ Alone h own m' n' := by
  cases taken_of_take? taken with
  | @post c running =>
    refine ⟨n.post (c.alone own), ?_, alone.post about⟩
    exact if_pos (alone.running.trans running)
  | signal =>
    cases Option.some.inj about
    exact ⟨_, rfl, alone.signal⟩
  | @complete d c rest queue =>
    have named : c.handle = h := by simpa [Event.about?, queue] using about
    have left : n.completions = c :: rest.filter (·.handle = h) := by simp [alone.completions, queue, named]
    have popped : Alone h own { m with completions := rest }
        { n with completions := rest.filter (·.handle = h) } :=
      { alone with completions := rfl }
    refine ⟨_, ?_, popped.onCompletion named⟩
    simp only [Event.alone, take?, left]
  | @serve c d backend rest queue =>
    have about : c.about? = some h := about
    have left : n.commands = c.alone own :: (rest.filter (·.about? = some h)).map (Command.alone own) := by
      simp [alone.commands, queue, about]
    have popped : Alone h own { m with commands := rest }
        { n with commands := (rest.filter (·.about? = some h)).map (Command.alone own) } :=
      { alone with commands := rfl }
    refine ⟨_, ?_, popped.onCommand about numbered⟩
    simp only [Event.alone, take?, left, if_true]
  | drain => cases about

theorem aside_take? (taken : m.take? event = some m') (other : event.about? m ≠ some h)
    (going : event.stops = false) (numbered : Numbered h own m'.sources) :
    Aside h own m'.sources (event.reactsWith m) m m' := by
  cases taken_of_take? taken with
  | post => exact .of_same rfl fun _ alone => alone.post_other other
  | signal => exact .of_same quiet_signal.notices fun _ alone => alone.signal_other fun same => other (same ▸ rfl)
  | @complete d c rest queue =>
    have apart : c.handle ≠ h := by simpa [Event.about?, queue] using other
    have popped {sources : List Handle} :
        Aside h own sources ((Event.complete d).reactsWith m) m { m with completions := rest } := by
      refine .of_same rfl fun n alone => ?_
      refine { alone with completions := ?_ }
      simp [alone.completions, queue, apart]
    refine popped.trans (aside_onCompletion apart ⟨fixed_onCompletion.sources.symm, fun w seen => ?_⟩ rfl)
    have seen : m.watch? c.handle = some w := seen
    simp [Event.reactsWith, queue, seen]
  | @serve c d backend rest queue =>
    have apart : c.about? ≠ some h := other
    have popped {sources : List Handle} {reactions : List Reaction} :
        Aside h own sources reactions m { m with commands := rest } := by
      refine .of_same rfl fun n alone => ?_
      refine { alone with commands := ?_ }
      simp [alone.commands, queue, apart]
    cases c with
    | register k path recursive reactions =>
      have other : k ≠ h := fun same => apart (congrArg some same)
      exact popped.trans (aside_register other rfl numbered)
    | unregister k =>
      have other : k ≠ h := fun same => apart (congrArg some same)
      exact popped.trans (aside_cancel other)
    | stop => cases going
  | drain => cases going

theorem Alone.skip (alone : Alone h own m n) (taken : m.take? event = some m') (other : event.about? m ≠ some h)
    (going : event.stops = false) (numbered : Numbered h own m'.sources) :
    Alone h own m' (n.heard h (event.calls h m m')) := by
  obtain ⟨told, notices, still⟩ := aside_take? taken other going numbered
  unfold Event.calls
  rw [notices, List.drop_left]
  exact still n alone

theorem run_signals (n : Monitor) (signals : List Signal) :
    n.run (signals.map (.signal h)) = some (n.heard h signals) := by
  induction signals generalizing n with
  | nil => rfl
  | cons x rest ih => exact ih (n.signal h x)

theorem Numbered.of_prefix {early late : List Handle} (numbered : Numbered h own late) (upto : early <+: late) :
    Numbered h own early := by
  obtain ⟨more, rfl⟩ := upto
  intro i k found
  exact numbered i k ((List.getElem?_append_left (List.getElem?_eq_some_iff.mp found).1).trans found)

-- Induction on the run: what is left of each step takes the watch along.
theorem Alone.run (alone : Alone h own m n) (going : ∀ event ∈ events, event.stops = false)
    (ran : m.run events = some m') (numbered : Numbered h own m'.sources) :
    ∃ n', n.run (isolated h own m events) = some n' ∧ Alone h own m' n' := by
  induction events generalizing m n with
  | nil =>
    cases ran
    exact ⟨n, rfl, alone⟩
  | cons event rest ih =>
    obtain ⟨next, taken, later⟩ := Option.bind_eq_some_iff.mp ran
    have upto : Numbered h own next.sources := numbered.of_prefix (sources_run later)
    have first : event.stops = false := going event List.mem_cons_self
    have reached : ∃ n', n.run (event.isolated h own m next) = some n' ∧ Alone h own next n' := by
      unfold Event.isolated
      split
      · rename_i about
        obtain ⟨n', stepped, still⟩ := alone.step taken about upto
        exact ⟨n', by simp [Monitor.run, stepped], still⟩
      · rename_i other
        exact ⟨_, run_signals n _, alone.skip taken other first upto⟩
    obtain ⟨between, went, still⟩ := reached
    obtain ⟨n', finished, last⟩ := ih still (fun e listed => going e (List.mem_cons_of_mem _ listed)) later
    refine ⟨n', ?_, last⟩
    simp only [isolated, taken]
    rw [run_append, went]
    exact finished

end Step

section Silent

theorem still_of_silent {r : Reaction} (silent : Monitor.silent reactions = true) (listed : r ∈ reactions) :
    r.act.isCall = false := by
  simpa using List.all_eq_true.mp silent r listed

theorem alone_silent (silent : Monitor.silent reactions = true) :
    reactions.filterMap (·.alone own) = reactions := by
  have same (r : Reaction) (listed : r ∈ reactions) : r.alone own = some r := by
    unfold Reaction.alone
    rw [Act.alone_of_still (still_of_silent silent listed)]
    rfl
  rw [List.filterMap_congr same, List.filterMap_some]

theorem calls_silent (silent : Monitor.silent reactions = true) (told : List Notice) :
    calls sources h reactions told = [] := by
  refine List.flatMap_eq_nil_iff.mpr fun notice _ => List.filterMap_eq_nil_iff.mpr fun r listed => ?_
  exact Act.calls_of_still (still_of_silent silent (List.mem_filter.mp listed).1)

theorem alone_event (silent : event.silent = true) : event.alone own = event := by
  have same (c : Command) (silent : Command.silent c = true) : c.alone own = c := by
    cases c with
    | register k path recursive reactions => exact congrArg _ (alone_silent silent)
    | unregister => rfl
    | stop => rfl
  cases event with
  | post c => exact congrArg _ (same c silent)
  | serve c d backend => exact congrArg (Event.serve · d backend) (same c silent)
  | _ => rfl

def Silent (m : Monitor) : Prop := ∀ k w, m.watch? k = some w → silent w.reactions = true

theorem Silent.next (quiet : Silent m) (taken : m.take? event = some m') (silent : event.silent = true) :
    Silent m' := by
  intro k w seen
  rcases take?_cases taken with fixed | ⟨_, _, _, reactions, _, _, _, rfl, _, opened⟩
  · obtain ⟨v, before, same⟩ := fixed.reactions k w seen
    exact same ▸ quiet k v before
  · rcases opened.reactions k w seen with ⟨v, before, same⟩ | same
    · exact same ▸ quiet k v before
    · exact same ▸ silent

theorem Silent.reactsWith (quiet : Silent m) (silent : event.silent = true) :
    Monitor.silent (event.reactsWith m) = true := by
  cases event with
  | post => rfl
  | signal => rfl
  | complete d =>
    unfold Event.reactsWith
    cases seen : m.completions.head?.bind fun c => m.watch? c.handle with
    | none => rfl
    | some w =>
      obtain ⟨c, _, seen⟩ := Option.bind_eq_some_iff.mp seen
      exact quiet c.handle w seen
  | serve c d backend =>
    cases c with
    | register k path recursive reactions => exact silent
    | unregister => rfl
    | stop => rfl
  | drain => rfl

-- Then nothing is left of the steps that are about other watches.
theorem isolated_eq_kept (quiet : Silent m) (silent : ∀ event ∈ events, event.silent = true) :
    isolated h own m events = kept h m events := by
  induction events generalizing m with
  | nil => rfl
  | cons event rest ih =>
    have first : event.silent = true := silent event List.mem_cons_self
    unfold isolated kept
    cases taken : m.take? event with
    | none => rfl
    | some next =>
      have later := ih (quiet.next taken first) fun e listed => silent e (List.mem_cons_of_mem _ listed)
      dsimp only
      rw [later, Event.isolated, alone_event first, Event.calls, calls_silent (quiet.reactsWith first)]
      rfl

end Silent

section Run

variable {settings : Settings}

theorem numbered_idxOf (distinct : sources.Nodup) : Numbered h (sources.idxOf h) sources := by
  intro i k found
  obtain ⟨there, rfl⟩ := List.getElem?_eq_some_iff.mp found
  refine ⟨fun same => same ▸ (distinct.idxOf_getElem i there).symm, fun same => ?_⟩
  subst same
  exact List.getElem_idxOf there

theorem Alone.start : Alone h own (start settings) (start settings) :=
  ⟨rfl, rfl, rfl, rfl, (fun _ _ found => by cases found), rfl, rfl, rfl, rfl⟩

-- Over every run that is not brought to an end: the steps about one watch alone make up a run in which
-- the watch is told the same and ends up the same. If no receiver calls a source, these are just some of
-- the steps taken.
theorem watches_are_isolated (distinct : (registered events).Nodup) (going : ∀ event ∈ events, event.stops = false)
    (ran : (start settings).run events = some m) (h : Handle) :
    (∃ n, (start settings).run (isolated h (m.sources.idxOf h) (start settings) events) = some n ∧
        n.notices = m.noticesOf h ∧
        n.watch? h = (m.watch? h).map (Watch.alone (m.sources.idxOf h)) ∧
        n.completions = m.completions.filter (·.handle = h) ∧
        ∀ k, k ≠ h → n.watch? k = none) ∧
      ((∀ event ∈ events, event.silent = true) →
        isolated h (m.sources.idxOf h) (start settings) events = kept h (start settings) events) := by
  have numbered : Numbered h (m.sources.idxOf h) m.sources := numbered_idxOf (sources_nodup distinct ran)
  obtain ⟨n, went, alone⟩ := Alone.start.run going ran numbered
  refine ⟨⟨n, went, alone.notices, alone.watch?, alone.completions, fun k other => ?_⟩, isolated_eq_kept ?_⟩
  · refine List.find?_eq_none.mpr fun w listed same => other ?_
    rw [alone.watches] at listed
    obtain ⟨v, member, rfl⟩ := List.mem_map.mp listed
    have named : v.handle = h := by simpa using (List.mem_filter.mp member).2
    have same : v.handle = k := by simpa [Watch.alone] using same
    exact same.symm.trans named
  · intro k w seen
    cases seen

namespace Sample

open Reconcile.Sample

def calling : Command := .register ⟨2⟩ watched true [⟨.changed, .signal 1 .overflow⟩]

def overlapping : List Event :=
  [.post calling, .post asked, .serve calling filled fun _ _ => .plain, .serve asked filled fun _ _ => .plain,
    .signal ⟨2⟩ (.deliver [⟨.removed, .ofName name⟩]), .complete bare, .complete bare, .post (.unregister ⟨2⟩)]

end Sample

theorem watches_are_isolated_called : ∃ m n, (start .defaults).run Sample.overlapping = some m ∧
    (start .defaults).run (isolated ⟨1⟩ (m.sources.idxOf ⟨1⟩) (start .defaults) Sample.overlapping) = some n ∧
    m.noticesOf ⟨1⟩ = [.registered ⟨1⟩ Reconcile.Sample.held, .changed ⟨1⟩ [.removed Reconcile.Sample.file]] ∧
    n.notices = m.noticesOf ⟨1⟩ ∧ n.watch? ⟨2⟩ = none := by
  have distinct : (registered Sample.overlapping).Nodup := by decide
  have going : ∀ event ∈ Sample.overlapping, event.stops = false := by
    simp [Sample.overlapping, Sample.calling, Sample.asked, Event.stops]
  have told : ((start .defaults).run Sample.overlapping).map (·.noticesOf ⟨1⟩) =
      some [.registered ⟨1⟩ Reconcile.Sample.held, .changed ⟨1⟩ [.removed Reconcile.Sample.file]] := by decide +kernel
  obtain ⟨m, ran, told⟩ := Option.map_eq_some_iff.mp told
  obtain ⟨⟨n, went, notices, _, _, others⟩, _⟩ := watches_are_isolated distinct going ran ⟨1⟩
  exact ⟨m, n, ran, went, told, notices, others ⟨2⟩ (by decide)⟩

end Run

end Monitor

end DirWatch
