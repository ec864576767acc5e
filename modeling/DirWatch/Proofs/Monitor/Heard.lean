import DirWatch.Proofs.Monitor.Course
import DirWatch.Proofs.Subscription.Slot

namespace DirWatch

-- A subscription that hears signals: its read may be completed, once and with something to report.
inductive Slot.Hears (s t : Slot) : List Status → Prop
  | keeps : t.armed = s.armed → t.cancelled = s.cancelled → Hears s t []
  | returns {status : Status} : s.cancelled = false → s.armed.isSome = true → t.cancelled = false →
      t.armed = none → status.isAborted = false → Hears s t [status]

section Slot

variable {s t u : Slot} {x : Signal} {one two : List Status}

theorem Slot.Hears.refl (s : Slot) : s.Hears s [] := .keeps rfl rfl

theorem Slot.Hears.trans (first : s.Hears t one) (second : t.Hears u two) : s.Hears u (one ++ two) := by
  cases first with
  | keeps armed cancelled =>
    cases second with
    | keeps armed' cancelled' => exact .keeps (armed'.trans armed) (cancelled'.trans cancelled)
    | returns live lent live' done other =>
      exact .returns (cancelled ▸ live) (armed ▸ lent) live' done other
  | returns live lent live' done other =>
    cases second with
    | keeps armed cancelled =>
      exact .returns live lent (cancelled.trans live') (armed.trans done) other
    | returns _ again =>
      rw [done] at again
      cases again

theorem Slot.Completes.hears {next : Slot × Option Status} (live : s.cancelled = false)
    (completes : s.Completes next) : s.Hears next.1 next.2.toList := by
  cases completes with
  | idle => exact .refl s
  | waits => exact .refl s
  | overflow armed => exact .returns live (by simp [armed]) live rfl rfl
  | notifications armed => exact .returns live (by simp [armed]) live rfl rfl
  | failed armed => exact .returns live (by simp [armed]) live rfl rfl

theorem Slot.hears_receive : s.Hears (s.receive x).1 (s.receive x).2.toList := by
  cases cancelled : s.cancelled with
  | true =>
    rw [show s.receive x = (s, none) from call?_cancelled (c := .signal x) cancelled rfl]
    exact .refl s
  | false =>
    obtain ⟨armed, still⟩ := @feed_signal s x
    have live := still.trans cancelled
    rw [receive_live cancelled]
    exact Hears.trans (.keeps armed still) ((completes live).hears live)

end Slot

namespace Monitor

variable {m m' m'' : Monitor} {h k : Handle} {w : Watch} {slot : Slot} {status : Option Status} {x : Signal}
  {notice : Notice} {reactions : List Reaction}

-- How the reads of a watch ended, as far as the loop has not seen to it.
def statusesOf (m : Monitor) (h : Handle) : List Status :=
  (m.completions.filter (·.handle = h)).map Completion.status

theorem statusesOf_send : (m.send h status).statusesOf k =
    if k = h then m.statusesOf k ++ status.toList else m.statusesOf k := by
  cases status with
  | none => simp [send]
  | some st =>
    unfold statusesOf send
    by_cases same : k = h
    · simp [same]
    · simp [same, Ne.symm same]

-- Reads may have been completed; no watch has come, gone or changed otherwise.
structure Hears (m m' : Monitor) : Prop where
  requests : m'.requests = m.requests
  handles : m'.watches.map Watch.handle = m.watches.map Watch.handle
  unknown : ∀ h, m.watch? h = none → m'.watch? h = none ∧ m'.statusesOf h = m.statusesOf h
  known : ∀ h w, m.watch? h = some w → ∃ slot new, m'.watch? h = some { w with slot } ∧
    w.slot.Hears slot new ∧ m'.statusesOf h = m.statusesOf h ++ new

theorem Hears.of_same (requests : m'.requests = m.requests) (watches : m'.watches = m.watches)
    (completions : m'.completions = m.completions) : Hears m m' := by
  have found (h : Handle) : m'.watch? h = m.watch? h := congrArg _ watches
  have same (h : Handle) : m'.statusesOf h = m.statusesOf h := by
    unfold statusesOf
    rw [completions]
  refine ⟨requests, congrArg _ watches, fun h none => ⟨(found h).trans none, same h⟩, fun h w seen => ?_⟩
  exact ⟨w.slot, [], (found h).trans seen, .refl w.slot, by simp [same]⟩

theorem Hears.refl (m : Monitor) : Hears m m := .of_same rfl rfl rfl

theorem Hears.trans (one : Hears m m') (two : Hears m' m'') : Hears m m'' := by
  refine ⟨two.requests.trans one.requests, two.handles.trans one.handles, fun h none => ?_, fun h w seen => ?_⟩
  · obtain ⟨still, same⟩ := one.unknown h none
    obtain ⟨gone, same'⟩ := two.unknown h still
    exact ⟨gone, same'.trans same⟩
  · obtain ⟨slot, new, found, heard, more⟩ := one.known h w seen
    obtain ⟨slot', new', found', heard', more'⟩ := two.known h _ found
    exact ⟨slot', new ++ new', found', heard.trans heard', by rw [more', more, List.append_assoc]⟩

theorem Hears.before (hears : Hears m m') (seen : m'.watch? h = some w) :
    ∃ v new, m.watch? h = some v ∧ w = { v with slot := w.slot } ∧ v.slot.Hears w.slot new ∧
      m'.statusesOf h = m.statusesOf h ++ new := by
  cases before : m.watch? h with
  | none =>
    rw [(hears.unknown h before).1] at seen
    cases seen
  | some v =>
    obtain ⟨slot, new, found, heard, more⟩ := hears.known h v before
    obtain rfl : { v with slot } = w := Option.some.inj (found.symm.trans seen)
    exact ⟨v, new, rfl, rfl, heard, more⟩

-- One watch has been changed in place, and completions queued for it.
structure Amends (h : Handle) (f : Watch → Watch) (new : List Status) (m m' : Monitor) : Prop where
  requests : m'.requests = m.requests
  handles : m'.watches.map Watch.handle = m.watches.map Watch.handle
  watches : ∀ k, m'.watch? k = if k = h then (m.watch? h).map f else m.watch? k
  statuses : ∀ k, m'.statusesOf k = if k = h then m.statusesOf k ++ new else m.statusesOf k

theorem amends_update (f : Watch → Watch) (keeps : ∀ w, (f w).handle = w.handle) :
    Amends h f [] m (m.update h f) := by
  refine ⟨rfl, ?_, fun k => watch?_update keeps, fun k => ?_⟩
  · unfold update
    rw [List.map_map]
    refine List.map_congr_left fun w _ => ?_
    show (if w.handle = h then f w else w).handle = w.handle
    split
    · exact keeps w
    · rfl
  · rw [List.append_nil, ite_self]
    rfl

theorem Amends.send {f : Watch → Watch} (amends : Amends h f [] m m') :
    Amends h f status.toList m (m'.send h status) := by
  have found (k : Handle) : (m'.send h status).watch? k = m'.watch? k := by cases status <;> rfl
  refine ⟨?_, ?_, fun k => (found k).trans (amends.watches k), fun k => ?_⟩
  · rw [← amends.requests]
    cases status <;> rfl
  · rw [← amends.handles]
    cases status <;> rfl
  · rw [statusesOf_send, amends.statuses, List.append_nil, ite_self]

theorem amends_setSlot : Amends h ({ · with slot }) status.toList m ((m.setSlot h slot).send h status) :=
  (amends_update ({ · with slot }) fun _ => rfl).send

theorem amends_setSnapshot {s : Snapshot} : Amends h ({ · with snapshot := s }) [] m (m.setSnapshot h s) :=
  amends_update ({ · with snapshot := s }) fun _ => rfl

def enter (m : Monitor) (w : Watch) : Monitor :=
  { m with watches := m.watches ++ [w], sources := m.sources ++ [w.handle], requests := m.requests + 1 }

theorem watch?_enter (unknown : m.watch? w.handle = none) :
    (m.enter w).watch? k = if k = w.handle then some w else m.watch? k := by
  unfold watch? enter
  rw [List.find?_append]
  split
  · rename_i same
    rw [show m.watches.find? (·.handle == k) = none from same ▸ unknown]
    simp [same]
  · rename_i other
    rw [List.find?_singleton, if_neg (by simpa using Ne.symm other)]
    exact Option.or_none

-- The watch that is opened on a directory, after whatever its source signals before the first read.
def opened (m : Monitor) (h : Handle) (root : Path) (recursive : Bool) (reactions : List Reaction)
    (signals : List Signal) : Watch :=
  ⟨h, recursive, .empty root, signals.foldl (fun slot s => (slot.receive s).1)
    (Slot.fresh m.settings.bufferCapacity.toNat), reactions, .active⟩

-- The watch enters the registry and its buffer is lent; then the scan decides whether it stays active.
theorem openWatch_cases (m : Monitor) (d : Disk) (h : Handle) (root : Path) (recursive : Bool)
    (reactions : List Reaction) (signals : List Signal) :
    let armed := ((m.enter (m.opened h root recursive reactions signals)).arm h .empty).1
    (∃ scope s, Snapshot.scan d scope root = .ok s ∧ m.openWatch d h root recursive reactions signals =
        (armed.setSnapshot h s).tell reactions (.registered h s)) ∨
      ∃ e, m.openWatch d h root recursive reactions signals = (armed.cancel h).refuse h reactions e := by
  intro armed
  generalize became : m.openWatch d h root recursive reactions signals = n
  unfold openWatch at became
  dsimp only at became
  split at became
  · rename_i s _ scanned
    exact .inl ⟨_, s, scanned, became.symm⟩
  · exact .inr ⟨_, became.symm⟩
  · exact .inr ⟨_, became.symm⟩

theorem isActive_of_seen (seen : m.watch? h = some w) : m.isActive h = (w.state == .active) := by
  unfold isActive
  rw [seen]

theorem cancel_of_inactive (inactive : m.isActive h = false) : m.cancel h = m := by
  unfold cancel
  cases seen : m.watch? h with
  | none => rfl
  | some w =>
    rw [isActive_of_seen seen] at inactive
    exact if_neg (by simpa using inactive)

theorem amends_cancel (seen : m.watch? h = some w) (active : w.state = .active) :
    Amends h ({ · with slot := w.slot.cancel.1, state := .cancelling }) w.slot.cancel.2.toList m
      (m.cancel h) := by
  have equal : m.cancel h = { m.update h ({ · with slot := w.slot.cancel.1, state := .cancelling }) with
      closes := m.closes + 1 }.send h w.slot.cancel.2 := by
    unfold cancel
    rw [seen]
    exact if_pos active
  have marked := @amends_update m h ({ · with slot := w.slot.cancel.1, state := .cancelling }) fun _ => rfl
  have closed : Amends h ({ · with slot := w.slot.cancel.1, state := .cancelling }) [] m
      { m.update h ({ · with slot := w.slot.cancel.1, state := .cancelling }) with
        closes := m.closes + 1 } :=
    ⟨marked.requests, marked.handles, marked.watches, marked.statuses⟩
  rw [equal]
  exact closed.send

theorem onCompletion_aborted {d : Disk} {c : Completion} {b : Option Buffer} (aborted : c.status = .aborted b) :
    m.onCompletion d c = m.release c.handle := by
  unfold onCompletion
  rw [aborted]

theorem onCompletion_inactive {d : Disk} {c : Completion} (other : c.status.isAborted = false)
    (inactive : m.isActive c.handle = false) : m.onCompletion d c = m := by
  unfold onCompletion
  split
  · rename_i status
    simp [status, Status.isAborted] at other
  · rfl
  · rename_i w seen _
    rw [isActive_of_seen seen] at inactive
    exact if_neg (by simpa using inactive)

theorem hears_setSlot (seen : m.watch? h = some w) (heard : w.slot.Hears slot status.toList) :
    Hears m ((m.setSlot h slot).send h status) := by
  have amends := @amends_setSlot m h slot status
  refine ⟨amends.requests, amends.handles, fun k none => ?_, fun k v there => ?_⟩
  · have other : k ≠ h := fun same => by rw [same, seen] at none; cases none
    rw [amends.watches, amends.statuses, if_neg other, if_neg other]
    exact ⟨none, rfl⟩
  · rw [amends.watches, amends.statuses]
    by_cases same : k = h
    · subst same
      obtain rfl : w = v := Option.some.inj (seen.symm.trans there)
      rw [if_pos rfl, if_pos rfl, seen]
      exact ⟨slot, status.toList, rfl, heard, rfl⟩
    · rw [if_neg same, if_neg same]
      exact ⟨v.slot, [], there, .refl v.slot, (List.append_nil _).symm⟩

theorem hears_signal : Hears m (m.signal h x) := by
  unfold signal
  split
  · rename_i w seen
    exact hears_setSlot seen Slot.hears_receive
  · exact .refl m

theorem hears_perform {act : Act} : Hears m (m.perform h act).1 := by
  cases act with
  | stop => exact .refl m
  | unregister =>
    simp only [perform, unregister]
    cases m.running with
    | false => exact .refl m
    | true => exact .of_same rfl rfl rfl
  | countRequests => exact .refl m
  | signal source s =>
    simp only [perform]
    cases m.sources[source]? with
    | none => exact .refl m
    | some fed => exact hears_signal
  | askCancelled source =>
    simp only [perform]
    cases m.sources[source]? with
    | none => exact .refl m
    | some fed => exact .refl m

theorem hears_react : Hears m (m.react notice reactions) := by
  induction reactions generalizing m with
  | nil => exact .refl m
  | cons r rest ih =>
    unfold react
    split
    · have acted : Hears m (m.perform notice.handle r.act).1 := hears_perform
      refine acted.trans (Hears.trans ?_ ih)
      exact .of_same rfl rfl rfl
    · exact ih

theorem hears_tell : Hears m (m.tell reactions notice) := by
  have told : Hears m { m with notices := m.notices ++ [notice] } := .of_same rfl rfl rfl
  exact told.trans hears_react

theorem hears_tellWatch : Hears m (m.tellWatch notice) := by
  unfold tellWatch
  split
  · exact hears_tell
  · exact .refl m

theorem hears_refuseQueued (cs : List Command) : Hears m (m.refuseQueued cs) := by
  induction cs generalizing m with
  | nil => exact .refl m
  | cons c rest ih =>
    cases c with
    | register h path recursive reactions => exact hears_tell.trans ih
    | unregister => exact ih
    | stop => exact ih

end Monitor

end DirWatch
