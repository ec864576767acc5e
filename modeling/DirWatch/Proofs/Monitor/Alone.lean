import DirWatch.Proofs.Monitor.Sources

namespace DirWatch

-- What a receiver does as far as its own watch is concerned. The source of that watch has the number `own` among
-- all sources; alone it is the first, and there is no other to call.
def Act.alone (own : Nat) : Act → Option Act
  | .signal source s => if source = own then some (.signal 0 s) else none
  | .askCancelled source => if source = own then some (.askCancelled 0) else none
  | act => some act

def Reaction.alone (own : Nat) (r : Reaction) : Option Reaction := (r.act.alone own).map (⟨r.occasion, ·⟩)

def Watch.alone (own : Nat) (w : Watch) : Watch := { w with reactions := w.reactions.filterMap (·.alone own) }

def Command.alone (own : Nat) : Command → Command
  | .register h path recursive reactions => .register h path recursive (reactions.filterMap (·.alone own))
  | c => c

-- The watch that a command is about. A stop is about all of them.
def Command.about? : Command → Option Handle
  | .register h .. => some h
  | .unregister h => some h
  | .stop => none

namespace Monitor

def Numbered (h : Handle) (own : Nat) (sources : List Handle) : Prop :=
  ∀ i k, sources[i]? = some k → (k = h ↔ i = own)

-- What is queued, kept and told of `h` is the same in both, and `n` knows of nothing else.
structure Alone (h : Handle) (own : Nat) (m n : Monitor) : Prop where
  settings : n.settings = m.settings
  accepting : n.accepting = m.accepting
  running : n.running = m.running
  watches : n.watches = (m.watches.filter (·.handle = h)).map (Watch.alone own)
  numbered : Numbered h own m.sources
  sources : n.sources = m.sources.filter (· = h)
  commands : n.commands = (m.commands.filter (·.about? = some h)).map (Command.alone own)
  completions : n.completions = m.completions.filter (·.handle = h)
  notices : n.notices = m.notices.filter (·.handle = h)

variable {m n : Monitor} {h k : Handle} {own : Nat} {w : Watch} {d : Disk} {backend : Backend} {notice : Notice}
  {reactions : List Reaction} {error : MonitorError} {outcome : Outcome} {buffer : Buffer} {slot : Slot}
  {status : Option Status} {s : Snapshot} {x : Signal}

theorem Numbered.first {sources : List Handle} (numbered : Numbered h own sources) :
    (sources.filter (· = h))[0]? = sources[own]? := by
  cases found : sources[own]? with
  | none =>
    have missing : sources.filter (· = h) = [] := by
      rw [List.filter_eq_nil_iff]
      intro k listed
      obtain ⟨i, there⟩ := List.mem_iff_getElem?.mp listed
      intro same
      obtain rfl := (numbered i k there).mp (by simpa using same)
      rw [found] at there
      cases there
    rw [missing]
    rfl
  | some k =>
    obtain rfl := (numbered own k found).mpr rfl
    have listed : k ∈ sources.filter (· = k) :=
      List.mem_filter.mpr ⟨List.mem_of_getElem? found, by simp⟩
    obtain ⟨first, rest, parts⟩ := List.exists_cons_of_ne_nil (List.ne_nil_of_mem listed)
    have same : first ∈ sources.filter (· = k) := by
      rw [parts]
      exact List.mem_cons_self
    rw [parts]
    simpa using (List.mem_filter.mp same).2

theorem watches_update {f : Watch → Watch} (keeps : ∀ w, (f w).handle = w.handle) :
    (m.update k f).watches.filter (·.handle = h) =
      (m.watches.filter (·.handle = h)).map fun w => if w.handle = k then f w else w := by
  unfold update
  dsimp only
  rw [List.filter_map]
  congr 1
  apply List.filter_congr
  intro w _
  simp only [Function.comp]
  split
  · rw [keeps]
  · rfl

-- How the opening of a watch ends, once its first read is pending and the scan is done.
def concluded (m : Monitor) (h : Handle) (reactions : List Reaction) :
    Option MonitorError → Except MonitorError Snapshot → Monitor
  | none, .ok snapshot => (m.setSnapshot h snapshot).tell reactions (.registered h snapshot)
  | none, .error e | some e, _ => (m.cancel h).refuse h reactions e

theorem openWatch_eq {root : Path} {recursive : Bool} {signals : List Signal} :
    m.openWatch d h root recursive reactions signals =
      let w := m.opened h root recursive reactions signals
      let armed := (m.enter w).arm h .empty
      armed.1.concluded h reactions armed.2 (Snapshot.scan d (armed.1.scopeOf w) root) := rfl

theorem react_met {r : Reaction} (met : r.occasion = notice.occasion) : ∃ answers,
    m.react notice (r :: reactions) =
      { (m.perform notice.handle r.act).1 with answers := answers }.react notice reactions := by
  rw [react, if_pos met]
  exact ⟨_, rfl⟩

theorem react_missed {r : Reaction} (missed : r.occasion ≠ notice.occasion) :
    m.react notice (r :: reactions) = m.react notice reactions := by
  rw [react, if_neg missed]

namespace Alone

variable (alone : Alone h own m n)
include alone

theorem watch? : n.watch? h = (m.watch? h).map (Watch.alone own) := by
  unfold Monitor.watch?
  rw [alone.watches, List.find?_map, List.find?_filter]
  congr 2
  funext w
  by_cases same : w.handle = h <;> simp [Watch.alone, same]

theorem seen (there : m.watch? h = some w) : n.watch? h = some (w.alone own) := by
  rw [alone.watch?, there]
  rfl

theorem unseen (gone : m.watch? h = none) : n.watch? h = none := by
  rw [alone.watch?, gone]
  rfl

theorem isActive : n.isActive h = m.isActive h := by
  rw [isActive_eq, isActive_eq]
  unfold phase
  rw [alone.watch?, Option.map_map]
  rfl

theorem congr {m' n' : Monitor}
    (left : m' = { m with answers := m'.answers, requests := m'.requests, closes := m'.closes })
    (right : n' = { n with answers := n'.answers, requests := n'.requests, closes := n'.closes }) :
    Alone h own m' n' := by
  rw [left, right]
  exact { alone with }

-- The watch is changed in both alike, or another one is changed that `n` knows nothing of.
theorem update {f : Watch → Watch} (keeps : ∀ w, (f w).handle = w.handle)
    (same : ∀ w, (f w).alone own = f (w.alone own)) : Alone h own (m.update h f) (n.update h f) := by
  refine { alone with watches := ?_ }
  rw [watches_update keeps]
  show n.watches.map _ = _
  rw [alone.watches, List.map_map, List.map_map]
  refine List.map_congr_left fun w listed => ?_
  have named : w.handle = h := by simpa using (List.mem_filter.mp listed).2
  have still : (w.alone own).handle = h := named
  simp only [Function.comp]
  rw [if_pos named, if_pos still, same]

theorem update_other {f : Watch → Watch} (other : k ≠ h) (keeps : ∀ w, (f w).handle = w.handle) :
    Alone h own (m.update k f) n := by
  refine { alone with watches := ?_ }
  rw [watches_update keeps, alone.watches, List.map_map]
  refine List.map_congr_left fun w listed => ?_
  have named : w.handle = h := by simpa using (List.mem_filter.mp listed).2
  have apart : ¬w.handle = k := fun same => other (same.symm.trans named)
  simp only [Function.comp]
  rw [if_neg apart]

theorem send : Alone h own (m.send h status) (n.send h status) := by
  cases status with
  | none => exact alone
  | some st =>
    refine { alone with completions := ?_ }
    simp [Monitor.send, alone.completions]

theorem send_other (other : k ≠ h) : Alone h own (m.send k status) n := by
  cases status with
  | none => exact alone
  | some st =>
    refine { alone with completions := ?_ }
    simp [Monitor.send, alone.completions, other]

theorem setSlot : Alone h own (m.setSlot h slot) (n.setSlot h slot) :=
  alone.update (fun _ => rfl) fun _ => rfl

theorem setSlot_other (other : k ≠ h) : Alone h own (m.setSlot k slot) n :=
  alone.update_other other fun _ => rfl

theorem setSnapshot : Alone h own (m.setSnapshot h s) (n.setSnapshot h s) :=
  alone.update (fun _ => rfl) fun _ => rfl

theorem signal : Alone h own (m.signal h x) (n.signal h x) := by
  unfold Monitor.signal
  cases there : m.watch? h with
  | none =>
    rw [alone.unseen there]
    exact alone
  | some w =>
    rw [alone.seen there]
    exact alone.setSlot.send

theorem signal_other (other : k ≠ h) : Alone h own (m.signal k x) n := by
  unfold Monitor.signal
  split
  · exact (alone.setSlot_other other).send_other other
  · exact alone

theorem post {c : Command} (about : c.about? = some h) : Alone h own (m.post c) (n.post (c.alone own)) := by
  refine { alone with commands := ?_ }
  simp [Monitor.post, alone.commands, about]

theorem post_other {c : Command} (other : c.about? ≠ some h) : Alone h own (m.post c) n := by
  refine { alone with commands := ?_ }
  simp [Monitor.post, alone.commands, other]

-- A receiver acts as it would alone, and what it does to others is not seen.
theorem perform {act act' : Act} (kept : act.alone own = some act') :
    Alone h own (m.perform h act).1 (n.perform h act').1 := by
  cases act with
  | stop =>
    cases kept
    exact alone
  | countRequests =>
    cases kept
    exact alone
  | unregister =>
    cases kept
    simp only [Monitor.perform, Monitor.unregister, alone.running]
    cases m.running with
    | false => exact alone
    | true => exact alone.post rfl
  | signal source s =>
    obtain ⟨rfl, same⟩ := Option.ite_none_right_eq_some.mp kept
    obtain rfl := Option.some.inj same
    simp only [Monitor.perform, alone.sources, alone.numbered.first]
    cases found : m.sources[source]? with
    | none => exact alone
    | some fed =>
      obtain rfl := (alone.numbered source fed found).mpr rfl
      exact alone.signal
  | askCancelled source =>
    obtain ⟨rfl, same⟩ := Option.ite_none_right_eq_some.mp kept
    obtain rfl := Option.some.inj same
    simp only [Monitor.perform]
    cases m.sources[source]? <;> cases n.sources[0]? <;> exact alone

theorem perform_dropped {act : Act} (dropped : act.alone own = none) : Alone h own (m.perform h act).1 n := by
  cases act with
  | stop => cases dropped
  | countRequests => cases dropped
  | unregister => cases dropped
  | signal source s =>
    have other : source ≠ own := by simpa [Act.alone] using dropped
    simp only [Monitor.perform]
    cases found : m.sources[source]? with
    | none => exact alone
    | some fed => exact alone.signal_other fun same => other ((alone.numbered source fed found).mp same)
  | askCancelled source =>
    simp only [Monitor.perform]
    cases m.sources[source]? <;> exact alone

theorem react (about : notice.handle = h) :
    Alone h own (m.react notice reactions) (n.react notice (reactions.filterMap (·.alone own))) := by
  induction reactions generalizing m n with
  | nil => exact alone
  | cons r rest ih =>
    by_cases met : r.occasion = notice.occasion
    · obtain ⟨answers, acted⟩ := @react_met m notice rest r met
      rw [acted, about]
      cases kept : r.act.alone own with
      | none =>
        rw [List.filterMap_cons_none (by simp [Reaction.alone, kept])]
        exact ih ((alone.perform_dropped kept).congr rfl rfl)
      | some act =>
        rw [List.filterMap_cons_some (b := ⟨r.occasion, act⟩) (by simp [Reaction.alone, kept])]
        obtain ⟨answers, acted⟩ := @react_met n notice (rest.filterMap (·.alone own)) ⟨r.occasion, act⟩ met
        rw [acted, about]
        exact ih ((alone.perform kept).congr rfl rfl)
    · rw [react_missed met]
      cases kept : r.act.alone own with
      | none =>
        rw [List.filterMap_cons_none (by simp [Reaction.alone, kept])]
        exact ih alone
      | some act =>
        rw [List.filterMap_cons_some (b := ⟨r.occasion, act⟩) (by simp [Reaction.alone, kept]),
          react_missed (r := ⟨r.occasion, act⟩) met]
        exact ih alone

theorem tell (about : notice.handle = h) :
    Alone h own (m.tell reactions notice) (n.tell (reactions.filterMap (·.alone own)) notice) := by
  refine react ?_ about
  refine { alone with notices := ?_ }
  simp [alone.notices, about]

theorem tellWatch (about : notice.handle = h) : Alone h own (m.tellWatch notice) (n.tellWatch notice) := by
  unfold Monitor.tellWatch
  rw [about]
  cases there : m.watch? h with
  | none =>
    rw [alone.unseen there]
    exact alone
  | some w =>
    rw [alone.seen there]
    exact alone.tell about

theorem cancel : Alone h own (m.cancel h) (n.cancel h) := by
  unfold Monitor.cancel
  cases there : m.watch? h with
  | none =>
    rw [alone.unseen there]
    exact alone
  | some w =>
    rw [alone.seen there]
    dsimp only
    rw [show (w.alone own).state = w.state from rfl, show (w.alone own).slot = w.slot from rfl]
    split
    · refine send (congr (alone.update ?_ ?_) rfl rfl)
      · exact fun _ => rfl
      · exact fun _ => rfl
    · exact alone

theorem fail : Alone h own (m.fail h error) (n.fail h error) := by
  unfold Monitor.fail
  rw [alone.isActive]
  split
  · exact (alone.tellWatch rfl).cancel
  · exact alone

theorem failIf {e : Option MonitorError} : Alone h own (m.failIf h e) (n.failIf h e) := by
  cases e with
  | none => exact alone
  | some e => exact alone.fail

theorem rootRemoved : Alone h own (m.rootRemoved h) (n.rootRemoved h) := by
  unfold Monitor.rootRemoved
  cases there : m.watch? h with
  | none =>
    rw [alone.unseen there]
    exact alone
  | some w =>
    rw [alone.seen there]
    exact alone.fail

theorem deliver : Alone h own (m.deliver h outcome) (n.deliver h outcome) := by
  have taken : Alone h own (m.setSnapshot h outcome.snapshot) (n.setSnapshot h outcome.snapshot) := alone.setSnapshot
  unfold Monitor.deliver
  dsimp only
  rw [taken.isActive]
  split
  · have told : Alone h own
        (if outcome.changes.isEmpty then m.setSnapshot h outcome.snapshot
          else (m.setSnapshot h outcome.snapshot).tellWatch (.changed h outcome.changes))
        (if outcome.changes.isEmpty then n.setSnapshot h outcome.snapshot
          else (n.setSnapshot h outcome.snapshot).tellWatch (.changed h outcome.changes)) := by
      split
      · exact taken
      · exact taken.tellWatch rfl
    split
    · exact told.rootRemoved
    · exact told
  · exact taken

theorem arm : Alone h own (m.arm h buffer).1 (n.arm h buffer).1 ∧ (n.arm h buffer).2 = (m.arm h buffer).2 := by
  unfold Monitor.arm
  cases there : m.watch? h with
  | none =>
    rw [alone.unseen there]
    exact ⟨alone, rfl⟩
  | some w =>
    rw [alone.seen there]
    dsimp only
    rw [show (w.alone own).slot = w.slot from rfl]
    split
    · exact ⟨alone.setSlot.send, rfl⟩
    · exact ⟨alone, rfl⟩

theorem release : Alone h own (m.release h) (n.release h) := by
  unfold Monitor.release
  rw [alone.watch?, Option.isSome_map]
  split
  · refine { alone with watches := ?_ }
    have gone : (m.watches.filter (·.handle != h)).filter (·.handle = h) = [] := by
      rw [List.filter_filter, List.filter_eq_nil_iff]
      intro w _
      by_cases same : w.handle = h <;> simp [same]
    have none : n.watches.filter (·.handle != h) = [] := by
      rw [alone.watches, List.filter_eq_nil_iff]
      intro w listed
      obtain ⟨v, member, rfl⟩ := List.mem_map.mp listed
      simpa [Watch.alone] using (List.mem_filter.mp member).2
    show n.watches.filter (·.handle != h) = _
    rw [none, gone]
    rfl
  · exact alone

theorem scopeOf : n.scopeOf (w.alone own) = m.scopeOf w := by
  unfold Monitor.scopeOf
  rw [alone.settings]
  rfl

theorem onNotifications (named : w.handle = h) :
    Alone h own (m.onNotifications d w buffer) (n.onNotifications d (w.alone own) buffer) := by
  subst named
  obtain ⟨armed, same⟩ := @arm m n w.handle own buffer.take.2 alone
  unfold Monitor.onNotifications
  dsimp only
  rw [show (w.alone own).handle = w.handle from rfl, show (w.alone own).snapshot = w.snapshot from rfl,
    armed.scopeOf, same]
  exact armed.deliver.failIf

theorem onOverflow (named : w.handle = h) :
    Alone h own (m.onOverflow d w buffer) (n.onOverflow d (w.alone own) buffer) := by
  subst named
  obtain ⟨armed, same⟩ := @arm m n w.handle own buffer alone
  unfold Monitor.onOverflow
  dsimp only
  rw [show (w.alone own).handle = w.handle from rfl, show (w.alone own).snapshot = w.snapshot from rfl,
    armed.scopeOf, same]
  refine failIf ?_
  split
  · exact armed.deliver
  · exact armed.fail

theorem onFailure (named : w.handle = h) :
    Alone h own (m.onFailure d w error) (n.onFailure d (w.alone own) error) := by
  subst named
  unfold Monitor.onFailure
  rw [show (w.alone own).handle = w.handle from rfl, show (w.alone own).snapshot = w.snapshot from rfl,
    alone.scopeOf]
  refine fail ?_
  split
  · exact alone
  · exact alone.deliver

theorem onCompletion {c : Completion} (named : c.handle = h) :
    Alone h own (m.onCompletion d c) (n.onCompletion d c) := by
  unfold Monitor.onCompletion
  rw [named]
  cases there : m.watch? h with
  | none =>
    rw [alone.unseen there]
    cases c.status with
    | aborted b => exact alone.release
    | _ => exact alone
  | some w =>
    have here : w.handle = h := handle_of_watch? there
    rw [alone.seen there]
    by_cases active : w.state = .active
    · have still : (w.alone own).state = .active := active
      cases c.status with
      | aborted b => exact alone.release
      | notifications b =>
        simp only [if_pos active, if_pos still]
        exact alone.onNotifications here
      | overflow b =>
        simp only [if_pos active, if_pos still]
        exact alone.onOverflow here
      | failed b e =>
        simp only [if_pos active, if_pos still]
        exact alone.onFailure here
    · have still : (w.alone own).state ≠ .active := active
      cases c.status with
      | aborted b => exact alone.release
      | _ =>
        simp only [if_neg active, if_neg still]
        exact alone

theorem refuse : Alone h own (m.refuse h reactions error) (n.refuse h (reactions.filterMap (·.alone own)) error) :=
  alone.tell rfl

theorem enter (numbered : Numbered w.handle own (m.sources ++ [w.handle])) (named : w.handle = h) :
    Alone h own (m.enter w) (n.enter (w.alone own)) := by
  subst named
  refine { alone with watches := ?_, numbered := numbered, sources := ?_ }
  · simp [Monitor.enter, alone.watches]
  · simp [Monitor.enter, alone.sources, Watch.alone]

theorem concluded {e : Option MonitorError} {scanned : Except MonitorError Snapshot} :
    Alone h own (m.concluded h reactions e scanned)
      (n.concluded h (reactions.filterMap (·.alone own)) e scanned) := by
  unfold Monitor.concluded
  split
  · exact alone.setSnapshot.tell rfl
  · exact alone.cancel.refuse
  · exact alone.cancel.refuse

theorem openWatch {root : Path} {recursive : Bool} {signals : List Signal}
    (numbered : Numbered h own (m.sources ++ [h])) :
    Alone h own (m.openWatch d h root recursive reactions signals)
      (n.openWatch d h root recursive (reactions.filterMap (·.alone own)) signals) := by
  have same : n.opened h root recursive (reactions.filterMap (·.alone own)) signals =
      (m.opened h root recursive reactions signals).alone own := by
    unfold opened
    rw [alone.settings]
    rfl
  have entered : Alone h own (m.enter (m.opened h root recursive reactions signals))
      (n.enter ((m.opened h root recursive reactions signals).alone own)) := alone.enter numbered rfl
  obtain ⟨armed, equal⟩ := @arm _ _ h own .empty entered
  rw [openWatch_eq, openWatch_eq, same]
  dsimp only
  rw [armed.scopeOf, equal]
  exact armed.concluded

theorem register {path : Path} {recursive : Bool}
    (numbered : Numbered h own (m.register d backend h path recursive reactions).1.sources) :
    Alone h own (m.register d backend h path recursive reactions).1
      (n.register d backend h path recursive (reactions.filterMap (·.alone own))).1 := by
  rw [register_eq] at numbered
  rw [register_eq, register_eq, alone.accepting]
  cases asked : admitted m.accepting d backend path recursive with
  | error e => exact alone.refuse
  | ok opening =>
    rw [asked] at numbered
    refine alone.openWatch ?_
    rwa [opened_openWatch.sources] at numbered

theorem onCommand {c : Command} (about : c.about? = some h)
    (numbered : Numbered h own (m.onCommand d backend c).1.sources) :
    Alone h own (m.onCommand d backend c).1 (n.onCommand d backend (c.alone own)).1 := by
  cases c with
  | register k path recursive reactions =>
    cases Option.some.inj about
    exact alone.register numbered
  | unregister k =>
    cases Option.some.inj about
    exact alone.cancel
  | stop => cases about

end Alone

end Monitor

end DirWatch
