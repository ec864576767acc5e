import DirWatch.Proofs.Reconcile.Brought
import DirWatch.Proofs.Reconcile.Within

namespace DirWatch

namespace Snapshot

variable {s t : Snapshot}

theorem entries_eq (left : s.Keyed) (right : t.Keyed) (known : s.Named) (found : t.Named)
    (same : ∀ q, s.at? q = t.at? q) : s.entries = t.entries := by
  have all (p : Path) : s.get? p = t.get? p := by
    refine Option.ext fun e => ?_
    constructor
    · intro stands
      obtain ⟨names, _, parts⟩ := known p e stands
      rwa [at?_of_components parts, ← same, ← at?_of_components parts]
    · intro stands
      obtain ⟨names, _, parts⟩ := found p e stands
      rwa [at?_of_components parts, same, ← at?_of_components parts]
  refine Sorted.ext left.sorted_entries right.sorted_entries fun e => ?_
  rw [left.mem_entries_iff, right.mem_entries_iff, all]

def HousedAt (s : Snapshot) (q : List Name) : Prop :=
  (s.at? q).isSome = true → ∀ p known, p <+: q → p ≠ q → s.at? p = some known → known.isDirectory = true

theorem Housed.at (housed : s.Housed) (closed : s.Closed) (named : s.Named) (q : List Name) : s.HousedAt q := by
  intro present p known up proper stood
  obtain ⟨dir, there, kind⟩ := housed.above closed (named.ne_nil stood) up proper present
  rw [stood] at there
  cases there
  exact kind

end Snapshot

namespace Reconcile

open Snapshot Disk

variable {d : Disk} {scope : Scope} {s u : Snapshot} {root : Path} {place : Place} {budget : Nat} {t : Instant}
  {inside : Listing} {view : View} {p q first names : List Name} {action one : Action} {records : List Record}

-- Nothing is shown below what is not shown, or is no directory.
structure Treelike (view : View) : Prop where
  gone : ∀ p q, p ≠ [] → p <+: q → view p = none → view q = none
  files : ∀ p q fresh, p <+: q → p ≠ q → view p = some fresh → fresh.isDirectory = false → view q = none

theorem treelike_view : Treelike (d.view scope place) :=
  ⟨fun _ _ below up gone => view_none_below gone below up,
    fun _ _ _ up proper seen file => view_file_below seen file up proper⟩

theorem treelike_none : Treelike fun _ => none := ⟨fun _ _ _ _ _ => rfl, fun _ _ _ _ _ _ _ => rfl⟩

-- If the path is below something that is known as a file, nothing is known there but what the view shows.
def Sound (view : View) (s : Snapshot) (q : List Name) : Prop :=
  ∀ p known, s.at? p = some known → known.isDirectory = false → p <+: q → p ≠ q →
    s.at? q = none ∨ s.at? q = view q

theorem sound_of_housedAt (housed : s.HousedAt q) : Sound view s q := by
  intro p known stood file up proper
  refine .inl ?_
  by_contra present
  have dir := housed (Option.isSome_iff_ne_none.mpr present) p known up proper stood
  rw [file] at dir
  cases dir

-- A hint that brings a path brings what lies below it as well, unless the path only was renewed, or is below a
-- directory that was refreshed and no report would tell a difference.
theorem Brings.down (brings : Brings view s action first p) (up : p <+: q) :
    Brings view s action first q ∨
      (∃ known fresh, s.at? p = some known ∧ view p = some fresh ∧ known.isDirectory = fresh.isDirectory) ∨
      Right s view q := by
  cases brings with
  | arrives arrival seen some above gone below => exact .inl (.arrives arrival seen some above gone (below.trans up))
  | leaves leaving stood gone below => exact .inl (.leaves leaving stood gone (below.trans up))
  | turns stood seen kinds below => exact .inl (.turns stood seen kinds (below.trans up))
  | renews stood seen kinds => exact .inr (.inl ⟨_, _, stood, seen, kinds⟩)
  | refreshes leaving stood seen was is_ below proper =>
    by_cases right : Right s view q
    · exact .inr (.inr right)
    · refine .inl (.refreshes leaving stood seen was is_ (below.trans up) (fun same => ?_) right)
      subst same
      exact proper (below.eq_of_length_le up.length_le)

section Step

variable (tree : Treelike view) (step : Brought view s (Brings view s one first) u)
include tree step

theorem Brings.before (later : Brings view u action p q) :
    Brings view s one first q ∨ Brings view s action p q := by
  by_cases now : Brings view s one first q
  · exact .inl now
  right
  have kept := step.kept q now
  cases later with
  | @arrives a q arrival seen some above gone below =>
    by_cases came : Brings view s one first a
    · rw [step.brought a came] at gone
      rw [tree.gone a p some above gone] at seen
      cases seen
    · exact .arrives arrival seen some above (step.kept a came ▸ gone) below
  | leaves leaving stood gone below =>
    by_cases came : Brings view s one first p
    · rw [step.brought p came, gone] at stood
      cases stood
    · exact .leaves leaving (step.kept p came ▸ stood) gone below
  | turns stood seen kinds below =>
    by_cases came : Brings view s one first p
    · rw [step.brought p came, seen] at stood
      cases stood
      exact absurd rfl kinds
    · exact .turns (step.kept p came ▸ stood) seen kinds below
  | renews stood seen kinds why => exact .renews (kept ▸ stood) seen kinds why
  | @refreshes q known fresh leaving stood seen was is_ up proper wrong =>
    have wrong : ¬Right s view q := fun right => wrong (right.congr kept)
    by_cases came : Brings view s one first p
    · rcases came.down up with brings | ⟨old, new, known, shown, kinds⟩ | right
      · exact absurd brings now
      · rw [seen] at shown
        cases shown
        exact .refreshes leaving known seen (kinds.trans is_) is_ up proper wrong
      · exact absurd right wrong
    · exact .refreshes leaving (step.kept p came ▸ stood) seen was is_ up proper wrong

-- What a hint would have brought before another one, it brings after that as well, unless it is right by then.
theorem Brings.after (closed : s.Closed) (below : p ≠ []) (brings : Brings view s action p q) :
    Brings view u action p q ∨ Right u view q ∧ (Sound view s q → u.at? q = view q) := by
  by_cases now : Brings view s one first q
  · have new := step.brought q now
    exact .inr ⟨right_of_eq new, fun _ => new⟩
  have kept := step.kept q now
  have settled (same : s.at? q = view q) : Right u view q ∧ (Sound view s q → u.at? q = view q) :=
    ⟨right_of_eq (kept.trans same), fun _ => kept.trans same⟩
  cases brings with
  | @arrives a q arrival seen some above gone up =>
    by_cases came : Brings view s one first a
    · rcases came.down up with brings | ⟨old, _, known, _⟩ | right
      · exact absurd brings now
      · rw [gone] at known
        cases known
      · have absent := closed.none_below some gone up
        exact .inr (settled (absent.trans (right.unseen absent).symm))
    · exact .inl (.arrives arrival seen some above ((step.kept a came).trans gone) up)
  | leaves leaving stood gone up =>
    by_cases came : Brings view s one first p
    · rcases came.down up with brings | ⟨_, new, _, shown, _⟩ | right
      · exact absurd brings now
      · rw [gone] at shown
        cases shown
      · have bare := tree.gone p q below up gone
        exact .inr (settled ((right.unknown bare).trans bare.symm))
    · exact .inl (.leaves leaving (by rwa [step.kept p came]) gone up)
  | @turns q known fresh stood seen kinds up =>
    by_cases came : Brings view s one first p
    · rcases came.down up with brings | ⟨old, new, known', shown, alike⟩ | right
      · exact absurd brings now
      · rw [stood] at known'
        rw [seen] at shown
        cases known'
        cases shown
        exact absurd alike kinds
      · -- only below a file that became a directory something may be left that differs in its write time
        have proper : p ≠ q := by
          rintro rfl
          unfold Right at right
          rw [stood, seen] at right
          exact kinds (Entry.isDirectory_of_differs right)
        refine .inr ⟨right.congr kept, fun sound => kept.trans ?_⟩
        cases file : known.isDirectory with
        | false =>
          rcases sound p known stood file up proper with absent | same
          · exact absent.trans (right.unseen absent).symm
          · exact same
        | true =>
          have bare := tree.files p q fresh up proper seen (by simpa [file] using kinds)
          exact (right.unknown bare).trans bare.symm
    · exact .inl (.turns ((step.kept p came).trans stood) seen kinds up)
  | renews stood seen kinds why => exact .inl (.renews (kept.trans stood) seen kinds why)
  | @refreshes q known fresh leaving stood seen was is_ up proper wrong =>
    have wrong : ¬Right u view q := fun right => wrong (right.congr kept.symm)
    by_cases came : Brings view s one first p
    · exact .inl (.refreshes leaving ((step.brought p came).trans seen) seen is_ is_ up proper wrong)
    · exact .inl (.refreshes leaving ((step.kept p came).trans stood) seen was is_ up proper wrong)

theorem Sound.next (sound : Sound view s q) : Sound view u q := by
  intro p known stood file up proper
  by_cases now : Brings view s one first q
  · exact .inr (step.brought q now)
  · rw [step.kept q now]
    by_cases came : Brings view s one first p
    · have seen := (step.brought p came).symm.trans stood
      rcases came.down up with brings | ⟨old, new, before, shown, kinds⟩ | right
      · exact absurd brings now
      · rw [seen] at shown
        cases shown
        exact sound p old before (kinds.trans file) up proper
      · exact .inl (right.unknown (tree.files p q known up proper seen file))
    · exact sound p known ((step.kept p came).symm.trans stood) file up proper

end Step

-- What the hints of a watch go by: a view, and every hint brings just what it is to bring.
structure Sees (d : Disk) (scope : Scope) (root : Path) (view : View) : Prop where
  tree : Treelike view
  shows : ∀ q, (view q).isSome = true → scope.shows q = true
  follows : ∀ {s : Snapshot} {action : Action} {p : List Name}, s.Tracked root → Shown scope s → p ≠ [] →
    Brought view s (Brings view s action p) (apply d scope s action p).1

theorem exists_sees (plain : d.linkFree = true) : ∃ view, Sees d scope root view := by
  cases dir : d.isDir root with
  | true =>
    obtain ⟨place, t, inside, budget, looked⟩ := isDir_iff.mp dir
    refine ⟨d.view scope place, treelike_view, fun q present => ?_, fun tracked shown below => ?_⟩
    · obtain ⟨e, seen⟩ := Option.isSome_iff_exists.mp present
      exact view_shows seen
    · exact apply_brought plain looked tracked shown below
  | false =>
    refine ⟨fun _ => none, treelike_none, (fun q present => by cases present), fun tracked shown below => ?_⟩
    exact apply_lost tracked shown dir below

def BroughtBy (view : View) (s : Snapshot) (records : List Record) (q : List Name) : Prop :=
  ∃ r ∈ records, ∃ p, p ≠ [] ∧ r.path.names? = some p ∧ Brings view s r.action p q

theorem broughtBy_cons {r : Record} (below : p ≠ []) (path : r.path.names? = some p) :
    BroughtBy view s (r :: records) q ↔ Brings view s r.action p q ∨ BroughtBy view s records q := by
  unfold BroughtBy
  rw [List.exists_mem_cons_iff]
  refine or_congr_left ⟨?_, fun brings => ⟨p, below, path, brings⟩⟩
  rintro ⟨other, _, same, brings⟩
  rw [path] at same
  cases same
  exact brings

theorem broughtBy_cons_other {r : Record} (other : r.path.names? = none ∨ r.path.names? = some []) :
    BroughtBy view s (r :: records) q ↔ BroughtBy view s records q := by
  unfold BroughtBy
  rw [List.exists_mem_cons_iff]
  refine or_iff_right ?_
  rintro ⟨p, below, path, _⟩
  rcases other with none | top
  · rw [none] at path
    cases path
  · rw [top] at path
    cases path
    exact below rfl

-- What a batch comes to at a path: nothing is done there, or it is brought to what the view shows.
structure Settles (view : View) (s : Snapshot) (records : List Record) (u : Snapshot) (q : List Name) : Prop where
  kept : ¬BroughtBy view s records q → u.at? q = s.at? q
  right : BroughtBy view s records q → Right u view q
  brought : BroughtBy view s records q → Sound view s q → u.at? q = view q

section Step

variable (tree : Treelike view) (step : Brought view s (Brings view s one first) u)
include tree step

theorem BroughtBy.before (later : BroughtBy view u records q) :
    Brings view s one first q ∨ BroughtBy view s records q := by
  obtain ⟨r, listed, p, below, path, brings⟩ := later
  exact (brings.before tree step).imp_right fun brings => ⟨r, listed, p, below, path, brings⟩

theorem BroughtBy.after (closed : s.Closed) (by_ : BroughtBy view s records q) :
    BroughtBy view u records q ∨ Right u view q ∧ (Sound view s q → u.at? q = view q) := by
  obtain ⟨r, listed, p, below, path, brings⟩ := by_
  exact (brings.after tree step closed below).imp_left fun brings => ⟨r, listed, p, below, path, brings⟩

end Step

theorem Settles.cons {r : Record} {v : Snapshot} (tree : Treelike view) (closed : s.Closed) (below : first ≠ [])
    (path : r.path.names? = some first) (step : Brought view s (Brings view s r.action first) u)
    (rest : Settles view u records v q) : Settles view s (r :: records) v q := by
  have whole := @broughtBy_cons s view first q records r below path
  have settled (here : Right u view q ∧ (Sound view s q → u.at? q = view q)) :
      Right v view q ∧ (Sound view s q → v.at? q = view q) := by
    by_cases later : BroughtBy view u records q
    · exact ⟨rest.right later, fun sound => rest.brought later (sound.next tree step)⟩
    · have same := rest.kept later
      exact ⟨here.1.congr same, fun sound => same.trans (here.2 sound)⟩
  have all (by_ : BroughtBy view s (r :: records) q) :
      Right v view q ∧ (Sound view s q → v.at? q = view q) := by
    rcases whole.mp by_ with now | later
    · have new := step.brought q now
      exact settled ⟨right_of_eq new, fun _ => new⟩
    · rcases later.after tree step closed with still | here
      · exact ⟨rest.right still, fun sound => rest.brought still (sound.next tree step)⟩
      · exact settled here
  refine ⟨fun none => ?_, fun by_ => (all by_).1, fun by_ => (all by_).2⟩
  rw [whole, not_or] at none
  rw [rest.kept fun later => (later.before tree step).elim none.1 none.2, step.kept q none.1]

-- Induction on the records: what the later ones bring after the first one is what they and the first one would
-- have brought from the start.
theorem applyAll_settles (sees : Sees d scope root view) (tracked : s.Tracked root) (shown : Shown scope s)
    (records : List Record) (q : List Name) :
    Settles view s records (applyAll d scope s records).1 q := by
  induction records generalizing s with
  | nil =>
    have none : ¬BroughtBy view s [] q := fun ⟨r, listed, _⟩ => by cases listed
    exact ⟨fun _ => rfl, fun by_ => absurd by_ none, fun by_ => absurd by_ none⟩
  | cons r rest ih =>
    rcases names_cases r with other | ⟨names, below, path⟩
    · have same := @broughtBy_cons_other s view q rest r other
      have later := ih tracked shown
      rw [applyAll_cons_other other]
      exact ⟨fun none => later.kept (none ∘ same.mpr), fun by_ => later.right (same.mp by_),
        fun by_ => later.brought (same.mp by_)⟩
    · rw [applyAll_cons below path]
      have step : Brought view s (Brings view s r.action names) (apply d scope s r.action names).1 :=
        sees.follows tracked shown below
      have kept : (apply d scope s r.action names).1.Tracked root :=
        ((apply_effect (tracked.rooted ▸ tracked.nonempty) tracked.closed below r.action).replays tracked).2
      refine .cons sees.tree tracked.closed below path step (ih kept fun p present => ?_)
      by_cases came : Brings view s r.action names p
      · exact sees.shows p (step.brought p came ▸ present)
      · exact shown p (step.kept p came ▸ present)

-- What a record says, however its path is spelled.
def hintOf (r : Record) : Action × List Component := (r.action, r.path.components)

theorem broughtBy_iff : BroughtBy view s records q ↔ ∃ hint ∈ records.map hintOf,
    ∃ p, p ≠ [] ∧ Path.namesOf hint.2 = some p ∧ Brings view s hint.1 p q := by
  simp [BroughtBy, hintOf, Path.names?]

theorem touchesRoot_iff : touchesRoot records = true ↔
    ∃ hint ∈ records.map hintOf, Path.namesOf hint.2 = some [] := by
  simp [touchesRoot, hintOf, Path.names?]

section Same

variable {one two : List Record} (same : ∀ hint, hint ∈ one.map hintOf ↔ hint ∈ two.map hintOf)
include same

theorem broughtBy_congr : BroughtBy view s one q ↔ BroughtBy view s two q := by
  simp only [broughtBy_iff, same]

theorem touchesRoot_congr : touchesRoot one = touchesRoot two := by
  rw [Bool.eq_iff_iff]
  simp only [touchesRoot_iff, same]

theorem applyAll_agree (sees : Sees d scope root view) (tracked : s.Tracked root) (shown : Shown scope s)
    (q : List Name) :
    Entry.Matches ((applyAll d scope s one).1.at? q) ((applyAll d scope s two).1.at? q) ∧
      (s.HousedAt q → (applyAll d scope s one).1.at? q = (applyAll d scope s two).1.at? q) := by
  have left := applyAll_settles sees tracked shown one q
  have right := applyAll_settles sees tracked shown two q
  by_cases by_ : BroughtBy view s one q
  · have also := (broughtBy_congr same).mp by_
    refine ⟨(left.right by_).trans (right.right also).symm, fun housed => ?_⟩
    have sound : Sound view s q := sound_of_housedAt housed
    rw [left.brought by_ sound, right.brought also sound]
  · have equal : (applyAll d scope s one).1.at? q = (applyAll d scope s two).1.at? q := by
      rw [left.kept by_, right.kept (by_ ∘ (broughtBy_congr same).mpr)]
    exact ⟨.of_eq equal, fun _ => equal⟩

end Same

theorem shown_of_within (within : s.Within scope) : Shown scope s := by
  intro q present
  obtain ⟨e, found⟩ := Option.isSome_iff_exists.mp present
  exact (within _ e found).shows

-- Whatever came before, two batches whose records say the same, in any order and however often, agree on
-- the root and leave the same behind, to the last write time at every path that is not known below
-- something known as a file.
theorem hints_in_any_order (reached : Reachable scope root s) (plain : d.linkFree = true) {one two : List Record}
    (same : ∀ hint, hint ∈ one.map hintOf ↔ hint ∈ two.map hintOf) :
    (batch d scope s one).rootRemoved = (batch d scope s two).rootRemoved ∧
      (batch d scope s one).snapshot.agrees (batch d scope s two).snapshot = true ∧
      (∀ q, s.HousedAt q → (batch d scope s one).snapshot.at? q = (batch d scope s two).snapshot.at? q) ∧
      (s.Housed → (batch d scope s one).snapshot.entries = (batch d scope s two).snapshot.entries) := by
  have tracked := tracked_of_reachable reached
  have shown := shown_of_within (within_of_reachable reached)
  obtain ⟨view, sees⟩ : ∃ view, Sees d scope root view := exists_sees plain
  have left := (@batch_replays d scope s root tracked one).2
  have right := (@batch_replays d scope s root tracked two).2
  have agree (q : List Name) : Entry.Matches ((batch d scope s one).snapshot.at? q)
        ((batch d scope s two).snapshot.at? q) ∧
      (s.HousedAt q → (batch d scope s one).snapshot.at? q = (batch d scope s two).snapshot.at? q) := by
    unfold batch
    rw [touchesRoot_congr same]
    dsimp only
    split
    · -- the root is gone, and nothing is left of either
      have gone (t : Snapshot) (changes : List Change) : (rootLost t changes).snapshot.at? q = none :=
        at?_removeSubtree_inside (List.nil_prefix)
      rw [gone, gone]
      exact ⟨.rfl, fun _ => rfl⟩
    · exact applyAll_agree same sees tracked shown q
  refine ⟨?_, ?_, fun q => (agree q).2, fun housed => ?_⟩
  · unfold batch
    rw [touchesRoot_congr same]
    dsimp only
    split <;> rfl
  · exact (agrees_iff left.keyed right.keyed).mpr
      (matches_of_at? left.named right.named fun q => (agree q).1)
  · exact entries_eq left.keyed right.keyed left.named right.named fun q =>
      (agree q).2 (housed.at tracked.closed tracked.named q)

namespace Sample

def removed : Record := ⟨.removed, .ofName name⟩

def modified : Record := ⟨.modified, .ofName name⟩

end Sample

-- A directory took the place of the file; the same is said of it three times, once with a slash behind its name.
theorem hints_in_any_order_replaced :
    (batch Sample.nested Sample.whole Sample.held [Sample.removed, Sample.modified]).snapshot.entries =
      (batch Sample.nested Sample.whole Sample.held
        [Sample.modified, ⟨.modified, ⟨[97, 47]⟩⟩, Sample.removed]).snapshot.entries := by
  have scanned : scan Sample.filled Sample.whole Sample.watched = .ok Sample.held := rfl
  have spelled : hintOf ⟨.modified, ⟨[97, 47]⟩⟩ = hintOf Sample.modified := rfl
  have same (hint) : hint ∈ [Sample.removed, Sample.modified].map hintOf ↔
      hint ∈ [Sample.modified, ⟨.modified, ⟨[97, 47]⟩⟩, Sample.removed].map hintOf := by
    simp [spelled, or_comm]
  have told := hints_in_any_order (d := Sample.nested) (.scanned scanned) rfl same
  exact told.2.2.2 (housed_scan scanned)

namespace Sample

def deeper (written : Instant) : Disk :=
  ⟨.epoch, .dir top .epoch (.dir name .epoch (.dir name .epoch (.dir name written .done .done) .done) .done) .done,
    rfl⟩

def innermost : Path := .ofNames [name, name, name]

-- The innermost directory is added while what it stands in is still known as a file.
def stale : Snapshot := (batch (deeper .epoch) whole grown [⟨.added, innermost⟩]).snapshot

def later : Instant := ⟨1, 0, rfl⟩

def turned : Record := ⟨.modified, beneath⟩

end Sample

-- Which of its write times is kept depends on the order: whether its parent is brought in anew, with all that is
-- in it, or is corrected by itself before.
theorem order_decides_write_time :
    Reachable Sample.whole Sample.watched Sample.stale ∧ (Sample.deeper Sample.later).linkFree = true ∧
      (∀ hint, hint ∈ [Sample.turned, Sample.removed].map hintOf ↔
        hint ∈ [Sample.removed, Sample.turned].map hintOf) ∧
      (batch (Sample.deeper Sample.later) Sample.whole Sample.stale
        [Sample.turned, Sample.removed]).snapshot.get? Sample.innermost =
          some ⟨Sample.innermost, true, some Sample.later, 0⟩ ∧
      (batch (Sample.deeper Sample.later) Sample.whole Sample.stale
        [Sample.removed, Sample.turned]).snapshot.get? Sample.innermost =
          some ⟨Sample.innermost, true, some .epoch, 0⟩ := by
  have scanned : scan Sample.filled Sample.whole Sample.watched = .ok Sample.held := rfl
  have grown : Reachable Sample.whole Sample.watched Sample.grown :=
    .called Sample.nested (.batch _) (.scanned scanned)
  exact ⟨.called (Sample.deeper .epoch) (.batch _) grown, rfl, by simp [or_comm], by decide +kernel, by decide +kernel⟩

end Reconcile

end DirWatch
