import DirWatch.Proofs.Monitor.Mirror
import DirWatch.Proofs.Reconcile.Lost

namespace DirWatch.Monitor

open Reconcile Snapshot

variable {m m' : Monitor} {h : Handle} {w : Watch} {d : Disk} {told : List Notice} {s : Snapshot}
  {e other : MonitorError} {outcome : Outcome} {buffer : Buffer} {c : Completion} {rest : List Completion}
  {gone : List Entry}

-- The failure of a watch is the last that has been told, and the watch is given up with the snapshot `s`.
structure Failed (told : List Notice) (h : Handle) (s : Snapshot) (e : MonitorError) (m : Monitor) : Prop where
  notices : m.notices = told ++ [.monitoringFailed h e]
  left : ∃ w, m.watch? h = some w ∧ w.state = .cancelling ∧ w.snapshot = s

def news (h : Handle) (cs : List Change) : List Notice := if cs.isEmpty then [] else [.changed h cs]

-- Each entry has been reported as removed, nothing else has, and then that the root is gone.
def LossTold (told : List Notice) (h : Handle) (s : Snapshot) (m : Monitor) : Prop :=
  ∃ gone : List Entry, gone.Perm s.entries ∧
    Failed (told ++ news h (gone.map .removed)) h (.empty s.root) (.rootRemoved s.root.display) m

-- A scan of a lost root tells the same if the root is missing or something else, and otherwise only why it
-- could not be looked up.
def RescanTold (d : Disk) (told : List Notice) (h : Handle) (s : Snapshot) (m : Monitor) : Prop :=
  match d.lookup s.root true with
  | .ok _ | .error .missing => LossTold told h s m
  | .error error => Failed told h s (.scan s.root error.fault) m

theorem Failed.inactive (failed : Failed told h s e m) : m.isActive h = false := by
  obtain ⟨w, seen, ending, _⟩ := failed.left
  simp [isActive_of_seen seen, ending]

-- Whatever else goes wrong in the same step is not told.
theorem Failed.fail (failed : Failed told h s e m) : m.fail h other = m := by
  simp [Monitor.fail, failed.inactive]

theorem Failed.failIf (failed : Failed told h s e m) (error : Option MonitorError) : m.failIf h error = m := by
  cases error with
  | none => rfl
  | some _ => exact failed.fail

theorem LossTold.fail (loss : LossTold told h s m) : m.fail h other = m := by
  obtain ⟨_, _, failed⟩ := loss
  exact failed.fail

theorem LossTold.failIf (loss : LossTold told h s m) (error : Option MonitorError) : m.failIf h error = m := by
  obtain ⟨_, _, failed⟩ := loss
  exact failed.failIf error

theorem Hears.active (hears : Hears m m') (seen : m.watch? h = some w) (active : w.state = .active) :
    ∃ v, m'.watch? h = some v ∧ v.state = .active ∧ v.snapshot = w.snapshot := by
  obtain ⟨slot, _, found, _⟩ := hears.known h w seen
  exact ⟨_, found, active, rfl⟩

section Active

variable (seen : m.watch? h = some w) (active : w.state = .active)
include seen active

theorem failed_cancel (notices : m.notices = told ++ [.monitoringFailed h e]) :
    Failed told h w.snapshot e (m.cancel h) := by
  refine ⟨cancel_frame.2.2.trans notices, ?_⟩
  have marked := (amends_cancel seen active).watches h
  rw [if_pos rfl, seen] at marked
  exact ⟨_, marked, rfl, rfl⟩

theorem failed_fail : Failed m.notices h w.snapshot e (m.fail h e) := by
  have active' : m.isActive h = true := by simp [isActive_of_seen seen, active]
  have tells : m.tellWatch (.monitoringFailed h e) = m.tell w.reactions (.monitoringFailed h e) :=
    tellWatch_eq seen
  unfold Monitor.fail
  rw [if_pos active', tells]
  obtain ⟨v, found, still, same⟩ := hears_tell.active seen active
  rw [← same]
  exact failed_cancel found still quiet_tell.notices

theorem failed_rootRemoved : Failed m.notices h w.snapshot (.rootRemoved w.snapshot.root.display)
    (m.rootRemoved h) := by
  unfold Monitor.rootRemoved
  rw [seen]
  exact failed_fail seen active

theorem failed_deliver (lost : outcome.rootRemoved = true) : Failed (m.notices ++ news h outcome.changes) h
    outcome.snapshot (.rootRemoved outcome.snapshot.root.display) (m.deliver h outcome) := by
  have taken : (m.setSnapshot h outcome.snapshot).watch? h = some { w with snapshot := outcome.snapshot } := by
    rw [amends_setSnapshot.watches, if_pos rfl, seen]
    rfl
  have active' : (m.setSnapshot h outcome.snapshot).isActive h = true := by
    simp [isActive_of_seen taken, active]
  unfold Monitor.deliver news
  simp only [active', lost, if_true]
  cases quiet : outcome.changes.isEmpty with
  | true =>
    rw [if_pos rfl, if_pos rfl, List.append_nil]
    exact failed_rootRemoved taken active
  | false =>
    rw [if_neg (by simp), if_neg (by simp), tellWatch_eq taken]
    obtain ⟨v, found, still, same⟩ := hears_tell.active taken active
    have failed := failed_rootRemoved found still
    rw [same, quiet_tell.notices] at failed
    exact failed

theorem lossTold_deliver (all : gone.Perm w.snapshot.entries)
    (ended : outcome = ⟨.empty w.snapshot.root, gone.map .removed, true⟩) :
    LossTold m.notices h w.snapshot (m.deliver h outcome) := by
  have lost : outcome.rootRemoved = true := by rw [ended]
  have failed := failed_deliver seen active lost
  rw [ended] at failed ⊢
  exact ⟨gone, all, failed⟩

end Active

section Steps

variable (seen : m.watch? w.handle = some w) (active : w.state = .active)
  (tracked : w.snapshot.Tracked w.snapshot.root) (lost : d.isDir w.snapshot.root = false)
include seen active

include tracked lost in
theorem lossTold_onNotifications (asked : touchesRoot buffer.records = true) :
    LossTold m.notices w.handle w.snapshot (m.onNotifications d w buffer) := by
  obtain ⟨gone, all, ended⟩ :=
    @batch_lost d ((m.arm w.handle buffer.take.2).1.scopeOf w) _ _ buffer.take.1 tracked lost asked
  obtain ⟨slot, armed⟩ := watch?_arm buffer.take.2 seen
  have loss := lossTold_deliver armed active all ended
  rw [quiet_arm.notices] at loss
  unfold Monitor.onNotifications
  dsimp only
  rw [loss.failIf]
  exact loss

include tracked lost in
theorem lossTold_onFailure : LossTold m.notices w.handle w.snapshot (m.onFailure d w e) := by
  obtain ⟨gone, all, ended⟩ := @batch_lost d (m.scopeOf w) _ _ [⟨.removed, .empty⟩] tracked lost rfl
  have loss := lossTold_deliver seen active all ended
  unfold Monitor.onFailure
  simp only [lost, Bool.false_eq_true, if_false]
  rw [loss.fail]
  exact loss

include lost in
theorem rescanTold_onOverflow :
    RescanTold d m.notices w.handle w.snapshot (m.onOverflow d w buffer) := by
  have scanned := @rescan_lost d ((m.arm w.handle buffer).1.scopeOf w) w.snapshot lost
  obtain ⟨slot, armed⟩ := watch?_arm buffer seen
  obtain ⟨gone, all, ended⟩ := @rescan_none w.snapshot
  have loss := lossTold_deliver armed active all ended
  have failed (error : MonitorError) := @failed_fail _ _ _ error armed active
  rw [quiet_arm.notices] at loss
  simp only [quiet_arm.notices] at failed
  unfold RescanTold Monitor.onOverflow
  dsimp only
  rw [scanned]
  cases looked : d.lookup w.snapshot.root true with
  | ok found =>
    dsimp only
    rw [loss.failIf]
    exact loss
  | error e =>
    cases e with
    | missing =>
      dsimp only
      rw [loss.failIf]
      exact loss
    | _ =>
      dsimp only
      rw [(failed _).failIf]
      exact failed _

end Steps

theorem onCompletion_active {status : Status} (seen : m.watch? h = some w) (active : w.state = .active) :
    m.onCompletion d ⟨h, status⟩ = match status with
      | .notifications buffer => m.onNotifications d w buffer
      | .overflow buffer => m.onOverflow d w buffer
      | .failed _ error => m.onFailure d w error
      | .aborted _ => m.release h := by
  cases status <;> simp [Monitor.onCompletion, seen, active]

section Run

variable {settings : Settings} {events : List Event}

theorem tracked_of_active (distinct : (registered events).Nodup) (ran : (start settings).run events = some m)
    (seen : m.watch? h = some w) (active : w.state = .active) : w.snapshot.Tracked w.snapshot.root := by
  have orderly := ((Orderly.start settings).follows distinct ran).orderly
  have going : Open h (m.noticesOf h) := (orderly.fits h).2 (by simp [isActive_of_seen seen, active])
  obtain ⟨s, reports, _, story⟩ := going
  have registered : .registered h s ∈ m.noticesOf h := by
    rw [story]
    exact List.mem_cons_self
  obtain ⟨root, tracked⟩ := (mirrored_of_run distinct ran h w s seen registered).tracked
  exact tracked.rooted ▸ tracked

-- Notifications about a root that is no directory any more, and a source that fails, tell the loss of
-- each entry once and then that of the root. An overflow tells what the scan makes of it.
theorem root_loss_told (distinct : (registered events).Nodup) (ran : (start settings).run events = some m)
    (queue : m.completions = c :: rest) (seen : m.watch? c.handle = some w) (active : w.state = .active)
    (lost : d.isDir w.snapshot.root = false) : ∃ m', m.take? (.complete d) = some m' ∧
      (∀ buffer, c.status = .notifications buffer → (∃ r ∈ buffer.records, r.path.names? = some []) →
        LossTold m.notices c.handle w.snapshot m') ∧
      (∀ buffer error, c.status = .failed buffer error → LossTold m.notices c.handle w.snapshot m') ∧
      ∀ buffer, c.status = .overflow buffer → RescanTold d m.notices c.handle w.snapshot m' := by
  have tracked := tracked_of_active distinct ran seen active
  obtain ⟨handle, status⟩ := c
  obtain rfl : w.handle = handle := handle_of_watch? seen
  have there : ({ m with completions := rest } : Monitor).watch? w.handle = some w := seen
  refine ⟨{ m with completions := rest }.onCompletion d ⟨w.handle, status⟩, by simp only [take?, queue], ?_⟩
  rw [onCompletion_active there active]
  refine ⟨?_, ?_, ?_⟩
  · rintro buffer rfl ⟨r, listed, top⟩
    have asked : touchesRoot buffer.records = true :=
      List.any_eq_true.mpr ⟨r, listed, by rw [top]; rfl⟩
    exact lossTold_onNotifications there active tracked lost asked
  · rintro buffer error rfl
    exact lossTold_onFailure there active tracked lost
  · rintro buffer rfl
    exact @rescanTold_onOverflow { m with completions := rest } w d buffer there active lost

namespace Sample

open Reconcile.Sample

def inner : Path := .ofPlace [top, name]

def overflown : List Event :=
  [.post (.register ⟨1⟩ inner true []), .serve (.register ⟨1⟩ inner true []) nested fun _ _ => .plain,
    .signal ⟨1⟩ .overflow]

def cleared : Disk := ⟨.epoch, .done, by decide⟩

def blocked : Disk := ⟨.epoch, .file top 0 .epoch .done, by decide⟩

end Sample

theorem root_loss_told_missing : ∃ m m' w, (start .defaults).run Sample.overflown = some m ∧
    m.take? (.complete Sample.cleared) = some m' ∧ m.watch? ⟨1⟩ = some w ∧ w.state = .active ∧
    m.completions = [⟨⟨1⟩, .overflow .empty⟩] ∧ Sample.cleared.isDir w.snapshot.root = false ∧
    LossTold m.notices ⟨1⟩ w.snapshot m' := by
  have distinct : (registered Sample.overflown).Nodup := by decide
  have ran : (start .defaults).run Sample.overflown = some _ := rfl
  obtain ⟨m', taken, _, _, overflow⟩ :=
    root_loss_told (d := Sample.cleared) (c := ⟨⟨1⟩, .overflow .empty⟩) distinct ran rfl rfl rfl rfl
  exact ⟨_, m', _, rfl, taken, rfl, rfl, rfl, rfl, overflow .empty rfl⟩

-- Where the directory stood in a file now, the loss of the entries is not told.
theorem blocked_root_is_told_as_scan_failure : ∃ m m' w, (start .defaults).run Sample.overflown = some m ∧
    m.take? (.complete Sample.blocked) = some m' ∧ m.watch? ⟨1⟩ = some w ∧ w.state = .active ∧
    m.completions = [⟨⟨1⟩, .overflow .empty⟩] ∧ Sample.blocked.isDir w.snapshot.root = false ∧
    w.snapshot.entries ≠ [] ∧
    m'.notices = m.notices ++ [.monitoringFailed ⟨1⟩ (.scan Sample.inner (.os Errno.notDirectory))] ∧
    ¬LossTold m.notices ⟨1⟩ w.snapshot m' := by
  refine ⟨_, _, _, rfl, rfl, rfl, rfl, rfl, rfl, by decide, rfl, ?_⟩
  intro loss
  obtain ⟨gone, _, failed⟩ := loss
  have last := congrArg List.getLast? failed.notices
  rw [List.getLast?_concat] at last
  cases last

end Run

end DirWatch.Monitor
