import DirWatch.Proofs.Monitor.Course

namespace DirWatch.Monitor

variable {m m' : Monitor} {d : Disk} {backend : Backend}

-- What can happen to a monitor. The disk may be another one each time; the queues are served in any order.
inductive Event
  | post (c : Command)
  | signal (h : Handle) (s : Signal)
  | complete (d : Disk)
  | serve (c : Command) (d : Disk) (backend : Backend)
  | drain

-- Commands are taken as long as the loop runs, and the drain is the end of it.
def take? (m : Monitor) : Event → Option Monitor
  | .post c => if m.running then some (m.post c) else none
  | .signal h s => some (m.signal h s)
  | .complete d =>
    match m.completions with
    | c :: rest => some ({ m with completions := rest }.onCompletion d c)
    | [] => none
  | .serve c d backend =>
    match m.commands with
    | first :: rest => if first = c then some ({ m with commands := rest }.onCommand d backend c).1 else none
    | [] => none
  | .drain => if m.running then some m.drain else none

def run (m : Monitor) : List Event → Option Monitor
  | [] => some m
  | event :: rest => (m.take? event).bind (·.run rest)

def Event.registers : Event → Option Handle
  | .post c => c.registers
  | _ => none

-- What each event comes to, if it can happen.
inductive Taken (m : Monitor) : Event → Monitor → Prop
  | post {c : Command} : m.running = true → Taken m (.post c) (m.post c)
  | signal {h : Handle} {s : Signal} : Taken m (.signal h s) (m.signal h s)
  | complete {d : Disk} {c : Completion} {rest : List Completion} : m.completions = c :: rest →
      Taken m (.complete d) ({ m with completions := rest }.onCompletion d c)
  | serve {c : Command} {d : Disk} {backend : Backend} {rest : List Command} : m.commands = c :: rest →
      Taken m (.serve c d backend) ({ m with commands := rest }.onCommand d backend c).1
  | drain : m.running = true → Taken m .drain m.drain

variable {event : Event} {events : List Event}

theorem taken_of_take? (taken : m.take? event = some m') : Taken m event m' := by
  cases event with
  | post c =>
    obtain ⟨running, taken⟩ := Option.ite_none_right_eq_some.mp taken
    exact Option.some.inj taken ▸ .post running
  | signal h s => exact Option.some.inj taken ▸ .signal
  | complete d =>
    simp only [take?] at taken
    split at taken
    · rename_i c rest queue
      exact Option.some.inj taken ▸ .complete queue
    · cases taken
  | serve c d backend =>
    simp only [take?] at taken
    split at taken
    · rename_i first rest queue
      obtain ⟨rfl, taken⟩ := Option.ite_none_right_eq_some.mp taken
      exact Option.some.inj taken ▸ .serve queue
    · cases taken
  | drain =>
    obtain ⟨running, taken⟩ := Option.ite_none_right_eq_some.mp taken
    exact Option.some.inj taken ▸ .drain running

def registered (events : List Event) : List Handle := events.filterMap Event.registers

theorem registered_cons : registered (event :: events) = event.registers.toList ++ registered events := by
  unfold registered
  cases asked : event.registers with
  | none => rw [List.filterMap_cons_none asked]; rfl
  | some h => rw [List.filterMap_cons_some asked]; rfl

theorem registered_append (more : List Event) :
    registered (events ++ more) = registered events ++ registered more := List.filterMap_append

theorem run_append (m : Monitor) {one two : List Event} :
    m.run (one ++ two) = (m.run one).bind (·.run two) := by
  induction one generalizing m with
  | nil => rfl
  | cons event rest ih =>
    simp only [List.cons_append, run, Option.bind_assoc]
    exact congrArg _ (funext fun next => ih next)

theorem run_split {one two : List Event} (ran : m.run (one ++ event :: two) = some m') : ∃ before after,
    m.run one = some before ∧ before.take? event = some after ∧ after.run two = some m' := by
  rw [run_append] at ran
  obtain ⟨before, first, rest⟩ := Option.bind_eq_some_iff.mp ran
  obtain ⟨after, taken, last⟩ := Option.bind_eq_some_iff.mp rest
  exact ⟨before, after, first, taken, last⟩

-- The loop itself goes through such runs, with completions before commands.
theorem take?_of_step {d' : Disk} (stepped : m.step d backend = some (m', d')) :
    ∃ event : Event, event.registers = none ∧ m.take? event = some m' := by
  unfold step at stepped
  split at stepped
  · rename_i c rest _ queue
    cases stepped
    refine ⟨.complete d, rfl, ?_⟩
    simp only [take?, queue]
  · rename_i c rest _ queue
    refine ⟨.serve c d backend, rfl, ?_⟩
    simp only [take?, queue, if_true]
    exact congrArg (Option.map Prod.fst) stepped
  · cases stepped

theorem run_of_settle (limit : Nat) (m : Monitor) (d : Disk) : ∃ events : List Event, registered events = [] ∧
    m.run events = some (settle backend limit m d).1 := by
  induction limit generalizing m d with
  | zero => exact ⟨[], rfl, rfl⟩
  | succ limit ih =>
    unfold settle
    split
    · rename_i next d' stepped
      obtain ⟨event, silent, taken⟩ := take?_of_step stepped
      obtain ⟨events, quiet, ran⟩ := ih next d'
      refine ⟨event :: events, ?_, ?_⟩
      · rw [registered_cons, silent, quiet]
        rfl
      · simp only [run, taken, Option.bind_some, ran]
    · exact ⟨[], rfl, rfl⟩

end DirWatch.Monitor
