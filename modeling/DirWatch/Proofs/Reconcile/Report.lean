import DirWatch.Disk.Script
import DirWatch.Proofs.Reconcile.Refresh

namespace DirWatch.Reconcile

open Snapshot

variable {d : Disk} {scope : Scope} {s : Snapshot} {root : Path} {a p q : List Name} {known fresh : Entry}
  {step : Step} {records : List Record}

section Grown

variable (tracked : s.Tracked root) (path : fresh.path = .ofNames a)
include tracked path

theorem replays_grown (bare : ∀ q, a <+: q → s.at? q = none) :
    Replays s ((grown d scope root fresh).map .added) (s.insertAll (grown d scope root fresh)) := by
  refine replays_added (grown_apart tracked.nonempty path) fun e met => ?_
  obtain ⟨more, below⟩ := grown_path tracked.nonempty path met
  rw [below]
  exact bare _ (List.prefix_append a more)

theorem closed_grown (bare : ∀ q, a <+: q → s.at? q = none)
    (upper : ∀ above, above ≠ [] → above <+: a → above ≠ a → (s.at? above).isSome = true) :
    (s.insertAll (grown d scope root fresh)).Closed := by
  have apart : Apart (grown d scope root fresh) := grown_apart tracked.nonempty path
  have listed : ∀ e ∈ grown d scope root fresh, ∀ q, e.path = .ofNames q →
      ((s.insertAll (grown d scope root fresh)).at? q).isSome = true := by
    intro e met q here
    rw [at?_insertAll_mem apart met here]
    rfl
  intro above q one up present
  by_cases inside : a <+: above
  · -- the entry came with the new directory, and so did the directories on the way to it
    have met : ∃ e ∈ grown d scope root fresh, e.path = .ofNames q := by
      by_contra missed
      rw [at?_insertAll_other, bare q (inside.trans up)] at present
      · cases present
      · intro e met
        obtain ⟨more, below⟩ := grown_path tracked.nonempty path met
        exact ⟨_, below, fun same => missed ⟨e, met, same ▸ below⟩⟩
    obtain ⟨e, met, here⟩ := met
    obtain ⟨front, rfl⟩ := inside
    obtain ⟨back, rfl⟩ := up
    by_cases end_ : back = []
    · subst end_
      exact listed e met _ (by rw [here, List.append_nil])
    · obtain ⟨dir, member, upper, _⟩ := grown_above tracked.nonempty path met end_ here
      exact listed dir member _ upper
  · rw [at?_grown_outside tracked.nonempty path inside]
    by_cases below : a <+: q
    · rcases List.prefix_or_prefix_of_prefix up below with higher | lower
      · exact upper above one higher fun same => inside (same ▸ List.prefix_refl _)
      · exact absurd lower inside
    · rw [at?_grown_outside tracked.nonempty path below] at present
      exact tracked.closed above q one up present

theorem tracked_grown (some : a ≠ []) (bare : ∀ q, a <+: q → s.at? q = none)
    (upper : ∀ above, above ≠ [] → above <+: a → above ≠ a → (s.at? above).isSome = true) :
    (s.insertAll (grown d scope root fresh)).Tracked root := by
  refine ⟨tracked.nonempty, insertAll_root.trans tracked.rooted, tracked.keyed.insertAll, ?_,
    closed_grown tracked path bare upper⟩
  refine tracked.named.insertAll fun e met => ?_
  obtain ⟨more, below⟩ := grown_path tracked.nonempty path met
  exact ⟨a ++ more, by simp [some], below⟩

end Grown

theorem tracked_insert (tracked : s.Tracked root) (path : fresh.path = .ofNames p)
    (seen : s.at? p = some known) : (s.insert fresh).Tracked root := by
  have present (q : List Name) : ((s.insert fresh).at? q).isSome = (s.at? q).isSome := by
    by_cases here : q = p
    · rw [here, at?_insert_self path, seen]
      rfl
    · rw [at?_insert_other path here]
  refine ⟨tracked.nonempty, tracked.rooted, tracked.keyed.insert,
    tracked.named.insert (tracked.named.ne_nil seen) path, ?_⟩
  intro above q some up found
  rw [present] at found ⊢
  exact tracked.closed above q some up found

theorem tracked_removeSubtree (tracked : s.Tracked root) (p : List Name) :
    (s.removeSubtree (.ofNames p)).Tracked root := by
  refine ⟨tracked.nonempty, tracked.rooted, tracked.keyed.removeSubtree, tracked.named.removeSubtree _, ?_⟩
  intro above q some up present
  by_cases inside : p <+: q
  · rw [at?_removeSubtree_inside inside] at present
    cases present
  · rw [at?_removeSubtree_outside inside] at present
    rw [at?_removeSubtree_outside fun higher => inside (higher.trans up)]
    exact tracked.closed above q some up present

theorem tracked_refresh (tracked : s.Tracked root) (seen : (s.at? p).isSome = true) :
    Replays s (refresh d scope s (.ofNames p)).2 (refresh d scope s (.ofNames p)).1 ∧
      (refresh d scope s (.ofNames p)).1.Tracked root := by
  cases scanned : d.entriesBelow scope s.root (s.root.join (.ofNames p)) with
  | error e =>
    rw [refresh_error scanned]
    exact ⟨.none (.refl s), tracked⟩
  | ok es =>
    have forest : Forest scope p none es :=
      Disk.entriesBelow_forest (tracked.rooted ▸ tracked.nonempty) scanned
    rw [refresh_ok scanned]
    exact ⟨⟨accepts_corrections tracked.keyed forest, .refl _⟩, tracked.nonempty,
      replayAll_root.trans tracked.rooted, tracked.keyed.replayAll,
      named_refresh tracked.keyed forest tracked.named,
      closed_refresh tracked.keyed forest tracked.closed seen⟩

theorem Effect.replays (tracked : s.Tracked root) (effect : Effect d scope s step) :
    Replays s step.2 step.1 ∧ step.1.Tracked root := by
  have based := tracked.rooted
  cases effect with
  | idle => exact ⟨.none (.refl s), tracked⟩
  | grow shown looked absent upper =>
    rw [based]
    have some := (Scope.shows_iff.mp shown).1
    have bare := fun q below => @Closed.none_below s _ q tracked.closed some absent below
    exact ⟨replays_grown tracked (look_path looked) bare,
      tracked_grown tracked (look_path looked) some bare upper⟩
  | drop shown seen gone => exact ⟨replays_removeSubtree tracked.keyed _, tracked_removeSubtree tracked _⟩
  | @replace p known fresh shown seen looked kinds =>
    rw [based]
    have some := (Scope.shows_iff.mp shown).1
    have cleared := tracked_removeSubtree tracked p
    have bare := fun q below => @at?_removeSubtree_inside s p q below
    refine ⟨(replays_removeSubtree tracked.keyed _).trans (replays_grown cleared (look_path looked) bare),
      tracked_grown cleared (look_path looked) some bare fun above one up proper => ?_⟩
    have outside : ¬p <+: above := fun lower => proper (up.eq_of_length_le lower.length_le)
    rw [at?_removeSubtree_outside outside]
    exact tracked.closed above p one up (by rw [seen]; rfl)
  | update shown seen looked kinds changed =>
    rw [at?, ← look_path looked] at seen
    refine ⟨replays_modified kinds changed seen, ?_⟩
    exact tracked_insert tracked (look_path looked) (by rwa [at?, ← look_path looked])
  | touch shown seen looked was is_ =>
    have here := seen
    rw [at?, ← look_path looked] at here
    refine ⟨.none (matches_insert here ?_), tracked_insert tracked (look_path looked) seen⟩
    exact Entry.differs_eq_false_iff.mpr ⟨was.trans is_.symm, .inl was⟩
  | refresh shown seen looked was is_ deep =>
    have here := seen
    rw [at?, ← look_path looked] at here
    have alike := matches_insert here (Entry.differs_eq_false_iff.mpr ⟨was.trans is_.symm, .inl was⟩)
    have inserted := tracked_insert tracked (look_path looked) seen
    have present := Option.isSome_iff_exists.mpr ⟨_, at?_insert_self (s := s) (look_path looked)⟩
    obtain ⟨told, kept⟩ := tracked_refresh inserted present
    exact ⟨(Replays.none alike).trans told, kept⟩

theorem applyAll_cons {r : Record} {names : List Name} (below : names ≠ [])
    (path : r.path.names? = some names) :
    applyAll d scope s (r :: records) =
      let first := apply d scope s r.action names
      let later := applyAll d scope first.1 records
      (later.1, first.2 ++ later.2) := by
  cases names with
  | nil => exact absurd rfl below
  | cons n rest => simp only [applyAll, path]

theorem applyAll_cons_other {r : Record} (other : r.path.names? = none ∨ r.path.names? = some []) :
    applyAll d scope s (r :: records) = applyAll d scope s records := by
  rcases other with path | path
  · simp only [applyAll, path]
  · simp only [applyAll, path]

theorem names_cases (r : Record) : (r.path.names? = none ∨ r.path.names? = some []) ∨
    ∃ names, names ≠ [] ∧ r.path.names? = some names := by
  cases path : r.path.names? with
  | none => exact .inl (.inl rfl)
  | some names =>
    by_cases top : names = []
    · exact .inl (.inr (by rw [top]))
    · exact .inr ⟨names, top, rfl⟩

theorem applyAll_replays (tracked : s.Tracked root) (records : List Record) :
    Replays s (applyAll d scope s records).2 (applyAll d scope s records).1 ∧
      (applyAll d scope s records).1.Tracked root := by
  induction records generalizing s with
  | nil => exact ⟨.none (.refl s), tracked⟩
  | cons r rest ih =>
    rcases names_cases r with other | ⟨names, below, path⟩
    · rw [applyAll_cons_other other]
      exact ih tracked
    · rw [applyAll_cons below path]
      have based : s.root.bytes ≠ [] := tracked.rooted ▸ tracked.nonempty
      have effect : Effect d scope s (apply d scope s r.action names) :=
        apply_effect based tracked.closed below r.action
      obtain ⟨first, kept⟩ := effect.replays tracked
      obtain ⟨later, kept⟩ := ih kept
      exact ⟨first.trans later, kept⟩

theorem rootLost_replays {changes : List Change} {t : Snapshot} (tracked : t.Tracked root)
    (told : Replays s changes t) : Replays s (rootLost t changes).changes (rootLost t changes).snapshot ∧
      (rootLost t changes).snapshot.Tracked root := by
  refine ⟨told.trans (replays_removeSubtree tracked.keyed .empty), ?_⟩
  exact tracked_removeSubtree tracked []

theorem batch_replays (tracked : s.Tracked root) (records : List Record) :
    Replays s (batch d scope s records).changes (batch d scope s records).snapshot ∧
      (batch d scope s records).snapshot.Tracked root := by
  obtain ⟨told, kept⟩ := @applyAll_replays d scope s root tracked records
  unfold batch
  dsimp only
  split
  · exact rootLost_replays kept told
  · exact ⟨told, kept⟩

theorem rescan_replays (tracked : s.Tracked root) {outcome : Outcome}
    (ended : rescan d scope s = .ok outcome) :
    Replays s outcome.changes outcome.snapshot ∧ outcome.snapshot.Tracked root := by
  unfold rescan at ended
  split at ended
  · rename_i fresh scanned
    cases ended
    rw [tracked.rooted] at scanned
    have found := tracked_scan scanned
    exact ⟨replays_diff tracked.keyed found.keyed, found⟩
  · cases ended
    exact rootLost_replays tracked (.none (.refl s))
  · cases ended
    exact rootLost_replays tracked (.none (.refl s))
  · cases ended

-- What can be asked of the reconciler.
inductive Call
  | batch (records : List Record)
  | overflow

def Call.run (d : Disk) (scope : Scope) (s : Snapshot) : Call → Except MonitorError Outcome
  | .batch records => .ok (Reconcile.batch d scope s records)
  | .overflow => rescan d scope s

-- The snapshot that is kept after a call; one that fails brings no other.
def Call.after (d : Disk) (scope : Scope) (s : Snapshot) (call : Call) : Snapshot :=
  match call.run d scope s with
  | .ok outcome => outcome.snapshot
  | .error _ => s

-- Each scan and each call may find another file system.
inductive Reachable (scope : Scope) (root : Path) : Snapshot → Prop
  | scanned {d : Disk} {s : Snapshot} : scan d scope root = .ok s → Reachable scope root s
  | called {s : Snapshot} (d : Disk) (call : Call) : Reachable scope root s →
      Reachable scope root (call.after d scope s)

theorem Call.run_replays {call : Call} {outcome : Outcome} (tracked : s.Tracked root)
    (ended : call.run d scope s = .ok outcome) :
    Replays s outcome.changes outcome.snapshot ∧ outcome.snapshot.Tracked root := by
  cases call with
  | batch records =>
    cases ended
    exact batch_replays tracked records
  | overflow => exact rescan_replays tracked ended

theorem tracked_of_reachable (reached : Reachable scope root s) : s.Tracked root := by
  induction reached with
  | scanned found => exact tracked_scan found
  | @called s d call _ ih =>
    unfold Call.after
    cases ended : call.run d scope s with
    | ok outcome => exact (Call.run_replays ih ended).2
    | error e => exact ih

-- The changes that a call reports fit, one after the other, whoever replays them on a copy of the
-- snapshot before it, and the copy ends up as the snapshot does. A call that fails changes nothing.
theorem reported_changes_replay (reached : Reachable scope root s) (d : Disk) (call : Call) :
    match call.run d scope s with
    | .ok outcome => call.after d scope s = outcome.snapshot ∧ s.Accepts outcome.changes ∧
        (s.replayAll outcome.changes).agrees (call.after d scope s) = true
    | .error _ => call.after d scope s = s := by
  have tracked := tracked_of_reachable reached
  unfold Call.after
  cases ended : call.run d scope s with
  | error e => rfl
  | ok outcome =>
    obtain ⟨told, kept⟩ := Call.run_replays tracked ended
    exact ⟨rfl, told.accepts, (agrees_iff tracked.keyed.replayAll kept.keyed).mpr told.leads⟩

namespace Sample

-- A directory `r` at the top of a disk, watched with all that is below it, and a file `a` in it.
def top : Name := ⟨[114], by decide⟩

def name : Name := ⟨[97], by decide⟩

def watched : Path := .ofPlace [top]

def whole : Scope := ⟨true, ⟨[]⟩, false⟩

def bare : Disk := ⟨.epoch, .dir top .epoch .done .done, by decide⟩

def filled : Disk := ⟨.epoch, .dir top .epoch (.file name 1 .epoch .done) .done, by decide⟩

def nested : Disk := ⟨.epoch, .dir top .epoch (.dir name .epoch (.file name 1 .epoch .done) .done) .done, by decide⟩

def file : Entry := ⟨.ofName name, false, some .epoch, 1⟩

def held : Snapshot := (Snapshot.empty watched).insert file

end Sample

theorem reported_changes_replay_removal :
    scan Sample.filled Sample.whole Sample.watched = .ok Sample.held ∧
      (Call.batch [⟨.removed, .ofName Sample.name⟩]).run Sample.bare Sample.whole Sample.held =
        .ok ⟨.empty Sample.watched, [.removed Sample.file], false⟩ ∧
      Sample.held.Accepts [.removed Sample.file] ∧
      (Sample.held.replayAll [.removed Sample.file]).agrees (.empty Sample.watched) = true := by
  have scanned : scan Sample.filled Sample.whole Sample.watched = .ok Sample.held := rfl
  have told := reported_changes_replay (.scanned scanned) Sample.bare
    (.batch [⟨.removed, .ofName Sample.name⟩])
  exact ⟨scanned, rfl, told.2⟩

end DirWatch.Reconcile
