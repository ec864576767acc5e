import DirWatch.Proofs.Reconcile.Pending

namespace DirWatch.Reconcile

open Snapshot Disk

variable {d : Disk} {scope : Scope} {s : Snapshot} {root : Path} {kind : List Name → Bool}

-- A disk, the snapshot kept of the root, and the hints that have not been followed yet.
structure World where
  disk : Disk
  snapshot : Snapshot
  log : List Record

namespace World

-- Something changes on disk, a hint without reason is logged, any first part of the log is taken off it
-- as a batch, or all of it is discarded and the root is scanned again.
inductive Step (scope : Scope) (root : Path) : World → World → Prop
  | mutate {w : World} {hints : List Record} {d : Disk} : Mutation root w.disk hints d →
      d.isDir root = true → Step scope root w ⟨d, w.snapshot, w.log ++ hints⟩
  | spurious {w : World} (r : Record) : Step scope root w ⟨w.disk, w.snapshot, w.log ++ [r]⟩
  | batch {w : World} {first rest : List Record} : w.log = first ++ rest →
      Step scope root w ⟨w.disk, (Call.batch first).after w.disk scope w.snapshot, rest⟩
  | overflow {w : World} : Step scope root w ⟨w.disk, Call.overflow.after w.disk scope w.snapshot, []⟩

-- The worlds that a run can lead to, with the disks seen on the way.
inductive Reached (scope : Scope) (root : Path) : List Disk → World → Prop
  | start {d : Disk} {s : Snapshot} (log : List Record) : d.linkFree = true → scan d scope root = .ok s →
      Reached scope root [d] ⟨d, s, log⟩
  | step {disks : List Disk} {w next : World} : Reached scope root disks w → Step scope root w next →
      Reached scope root (next.disk :: disks) next

end World

-- Whatever a path below the root leads to on this disk is of the kind of that path.
def Uses (kind : List Name → Bool) (root : Path) (d : Disk) : Prop :=
  ∀ names found, names ≠ [] → d.found? (root.join (.ofNames names)) true = some found →
    found.node.isDir = kind names

def OneKind (root : Path) (disks : List Disk) : Prop :=
  ∀ d ∈ disks, ∀ d' ∈ disks, ∀ names found other, names ≠ [] →
    d.found? (root.join (.ofNames names)) true = some found →
    d'.found? (root.join (.ofNames names)) true = some other → found.node.isDir = other.node.isDir

theorem exists_kind {disks : List Disk} (one : OneKind root disks) : ∃ kind, ∀ d ∈ disks, Uses kind root d := by
  classical
  refine ⟨fun names => decide (∃ d ∈ disks, ∃ found, d.found? (root.join (.ofNames names)) true = some found ∧
    found.node.isDir = true), fun d listed names found below here => ?_⟩
  cases dir : found.node.isDir with
  | true => exact (decide_eq_true ⟨d, listed, found, here, dir⟩).symm
  | false =>
    refine (decide_eq_false ?_).symm
    intro given
    obtain ⟨d', member, other, there, directory⟩ := given
    have same := one d listed d' member names found other below here there
    rw [dir, directory] at same
    cases same

theorem Uses.kinds {place : Place} {budget : Nat} {t : Instant} {inside : Listing} (plain : d.linkFree = true)
    (looked : d.lookup root true = .ok ⟨place, .dir t inside, budget⟩) (uses : Uses kind root d) :
    Kinds kind (d.view scope place) := by
  intro q e seen
  obtain ⟨shown, node, stood, rfl⟩ := view_eq_some_iff.mp seen
  have below := (Scope.shows_iff.mp shown).1
  have found := lookup_plain true plain looked below
  rw [stood] at found
  exact uses q _ below found

theorem lookup_of_isDir (plain : d.linkFree = true) (dir : d.isDir root = true) :
    ∃ t inside budget, d.lookup root true = .ok ⟨landing root, .dir t inside, budget⟩ := by
  obtain ⟨place, t, inside, budget, looked⟩ := isDir_iff.mp dir
  obtain rfl := place_of_lookup plain looked
  exact ⟨t, inside, budget, looked⟩

structure World.Sound (scope : Scope) (root : Path) (kind : List Name → Bool) (w : World) : Prop where
  plain : w.disk.linkFree = true
  dir : w.disk.isDir root = true
  tracked : w.snapshot.Tracked root
  pending : Pending scope kind (w.disk.view scope (landing root)) w.snapshot w.log

theorem World.Step.sound {w next : World} (step : World.Step scope root w next)
    (sound : w.Sound scope root kind) (uses : Uses kind root w.disk) (still : Uses kind root next.disk) :
    next.Sound scope root kind := by
  obtain ⟨plain, dir, tracked, pending⟩ := sound
  obtain ⟨t, inside, budget, looked⟩ := lookup_of_isDir plain dir
  have seen : Kinds kind (w.disk.view scope (landing root)) := uses.kinds plain looked
  cases step with
  | mutate mutation stays =>
    obtain ⟨free, shift⟩ := mutation.shift plain looked
    obtain ⟨t', inside', budget', found⟩ := lookup_of_isDir free stays
    exact ⟨free, stays, tracked, pending.shift seen tracked.closed (still.kinds free found) shift⟩
  | spurious r =>
    refine ⟨plain, dir, tracked, pending.shown, pending.kinds, pending.layered, fun q => ?_⟩
    rcases pending.covered q with right | covered
    · exact .inl right
    · exact .inr (covered.weaken fun k => List.mem_append_left [r])
  | @batch first rest log =>
    have kept := (@batch_replays w.disk scope w.snapshot root tracked first).2
    have pending : Pending scope kind _ w.snapshot (first ++ rest) := log ▸ pending
    have followed := pending.follow plain looked tracked seen
    have same := @batch_eq w.disk scope w.snapshot first (tracked.rooted ▸ dir)
    refine ⟨plain, dir, kept, ?_⟩
    show Pending _ _ _ (Reconcile.batch w.disk scope w.snapshot first).snapshot rest
    rw [same]
    exact followed
  | overflow =>
    obtain ⟨fresh, scanned, same⟩ : ∃ u, scan w.disk scope root = .ok u ∧
        ∀ names, u.at? names = w.disk.view scope (landing root) names := scan_plain plain looked
    have found : Call.overflow.after w.disk scope w.snapshot = fresh := by
      unfold Call.after Call.run rescan
      rw [tracked.rooted, scanned]
    refine ⟨plain, dir, found ▸ tracked_scan scanned, ?_⟩
    show Pending _ _ _ (Call.overflow.after w.disk scope w.snapshot) []
    rw [found]
    exact .of_view seen same

theorem World.Reached.sound {disks : List Disk} {w : World} (reached : World.Reached scope root disks w)
    (uses : ∀ d ∈ disks, Uses kind root d) : w.Sound scope root kind := by
  induction reached with
  | @start d s log plain scanned =>
    have dir := isDir_of_scan scanned
    obtain ⟨t, inside, budget, looked⟩ := lookup_of_isDir plain dir
    have seen : Kinds kind (d.view scope (landing root)) := (uses d (by simp)).kinds plain looked
    obtain ⟨fresh, found, same⟩ : ∃ u, scan d scope root = .ok u ∧
        ∀ names, u.at? names = d.view scope (landing root) names := scan_plain plain looked
    rw [scanned] at found
    cases found
    exact ⟨plain, dir, tracked_scan scanned, .of_view seen same⟩
  | @step disks w next earlier step ih =>
    have sound := ih fun d listed => uses d (List.mem_cons_of_mem _ listed)
    have here : w.disk ∈ disks := by
      cases earlier with
      | start => exact List.mem_singleton_self _
      | step => exact List.mem_cons_self
    exact step.sound sound (uses _ (List.mem_cons_of_mem _ here)) (uses _ List.mem_cons_self)

-- However far the hints lag behind and however they are batched: once the log is empty, the snapshot tells
-- what a scan of the root would.
theorem converged {disks : List Disk} {w : World} (reached : World.Reached scope root disks w)
    (one : OneKind root disks) (idle : w.log = []) :
    ∃ fresh, scan w.disk scope root = .ok fresh ∧ w.snapshot.agrees fresh = true := by
  obtain ⟨kind, uses⟩ := exists_kind one
  obtain ⟨plain, dir, tracked, pending⟩ := reached.sound uses
  obtain ⟨t, inside, budget, looked⟩ := lookup_of_isDir plain dir
  obtain ⟨fresh, scanned, same⟩ : ∃ u, scan w.disk scope root = .ok u ∧
      ∀ names, u.at? names = w.disk.view scope (landing root) names := scan_plain plain looked
  have found := tracked_scan scanned
  refine ⟨fresh, scanned, (agrees_iff tracked.keyed found.keyed).mpr ?_⟩
  refine matches_of_at? tracked.named found.named fun q => ?_
  rw [same q]
  rcases pending.covered q with right | ⟨r, listed, _⟩
  · exact right
  · rw [idle] at listed
    cases listed

namespace Sample

theorem uses_bare : Uses (fun _ => false) watched bare := by
  intro names found below here
  obtain ⟨n, rest, rfl⟩ := List.exists_cons_of_ne_nil below
  have looked : bare.lookup watched true = .ok ⟨[top], .dir .epoch .done, linkBudget⟩ := rfl
  obtain ⟨_, stood⟩ := found_below rfl looked below here
  cases stood

theorem uses_filled : Uses (fun _ => false) watched filled := by
  intro names found below here
  obtain ⟨n, rest, rfl⟩ := List.exists_cons_of_ne_nil below
  have looked : filled.lookup watched true =
      .ok ⟨[top], .dir .epoch (.file name 1 .epoch .done), linkBudget⟩ := rfl
  obtain ⟨_, stood⟩ := found_below rfl looked below here
  have inside : ((Listing.file name 1 .epoch .done).find? n).bind (Node.at? rest) = some found.node := by
    rw [at?_append, show filled.at? [top] = some (.dir .epoch (.file name 1 .epoch .done)) from rfl,
      Option.bind_some, Node.at?_dir] at stood
    exact stood
  unfold Listing.find? at inside
  split at inside
  · cases rest with
    | nil =>
      have file : Node.file 1 .epoch = found.node := Option.some.inj inside
      rw [← file]
      rfl
    | cons => cases inside
  · cases inside

end Sample

theorem converged_after_arrival :
    World.Reached Sample.whole Sample.watched [Sample.filled, Sample.filled, Sample.bare]
      ⟨Sample.filled, Sample.held, []⟩ ∧
    ∃ fresh, scan Sample.filled Sample.whole Sample.watched = .ok fresh ∧ Sample.held.agrees fresh = true := by
  have start : World.Reached Sample.whole Sample.watched [Sample.bare]
      ⟨Sample.bare, .empty Sample.watched, []⟩ := .start [] rfl rfl
  have made : Mutation Sample.watched Sample.bare [⟨.added, .ofName Sample.name⟩] Sample.filled :=
    .makeFile 1 .epoch (List.cons_ne_nil Sample.name []) rfl rfl ⟨rfl, rfl⟩
  have run : World.Reached Sample.whole Sample.watched [Sample.filled, Sample.filled, Sample.bare]
      ⟨Sample.filled, Sample.held, []⟩ :=
    (start.step (.mutate made rfl)).step (.batch (List.append_nil _).symm)
  refine ⟨run, converged run ?_ rfl⟩
  have uses : ∀ d ∈ [Sample.filled, Sample.filled, Sample.bare], Uses (fun _ => false) Sample.watched d := by
    simp [Sample.uses_bare, Sample.uses_filled]
  intro d listed d' member names found other below here there
  rw [uses d listed names found below here, uses d' member names other below there]

end DirWatch.Reconcile
