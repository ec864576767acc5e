import DirWatch.Proofs.Reconcile.Idle
import DirWatch.Proofs.Reconcile.Order

namespace DirWatch.Reconcile

open Snapshot Disk

variable {d : Disk} {scope : Scope} {s u : Snapshot} {root : Path} {place : Place} {budget : Nat} {t : Instant}
  {inside : Listing} {view : View} {p q first names : List Name} {known fresh : Entry} {action one : Action}
  {records : List Record}

-- Whatever the hint would bring stands there already.
def Fulfilled (view : View) (s : Snapshot) (action : Action) (p : List Name) : Prop :=
  ∀ q, Brings view s action p q → s.at? q = view q

section Step

variable (tree : Treelike view) (step : Brought view s (Brings view s one first) u)
include tree step

theorem fulfilled_followed : Fulfilled view u one first := by
  intro q brings
  have before : Brings view s one first q := (brings.before tree step).elim id id
  exact step.brought q before

theorem Fulfilled.next (before : Fulfilled view s action p) : Fulfilled view u action p := by
  intro q brings
  by_cases now : Brings view s one first q
  · exact step.brought q now
  · have standing := (brings.before tree step).resolve_left now
    rw [step.kept q now, before q standing]

end Step

namespace Fulfilled

variable (done : Fulfilled view s action p)
include done

theorem of_unknown (absent : s.at? p = none) (arrival : action = .added ∨ action = .renamedTo) (below : p ≠ []) :
    view p = none := by
  by_contra present
  have seen := Option.isSome_iff_ne_none.mpr present
  have here := done p (.arrives arrival seen below (List.prefix_refl p) absent (List.prefix_refl p))
  exact present (here.symm.trans absent)

theorem of_unseen (gone : view p = none) (leaving : action = .removed ∨ action = .renamedFrom) : s.at? p = none := by
  by_contra present
  have stood := Option.isSome_iff_ne_none.mpr present
  exact present ((done p (.leaves leaving stood gone (List.prefix_refl p))).trans gone)

variable (stood : s.at? p = some known) (seen : view p = some fresh)
include stood seen

omit done in
theorem of_both (here : s.at? p = view p) : known = fresh := by
  rw [stood, seen] at here
  exact Option.some.inj here

theorem kinds : known.isDirectory = fresh.isDirectory := by
  by_contra other
  have here := done p (.turns stood seen other (List.prefix_refl p))
  exact other (by rw [of_both stood seen here])

theorem alike : known.differs fresh = false := by
  by_contra changed
  have here := done p (.renews stood seen (done.kinds stood seen) (.inl (by simpa using changed)))
  rw [of_both stood seen here, Entry.differs_self] at changed
  exact changed rfl

theorem same_dir (dir : fresh.isDirectory = true) (other : action ≠ .added ∧ action ≠ .renamedTo) :
    known = fresh :=
  of_both stood seen (done p (.renews stood seen (done.kinds stood seen) (.inr ⟨dir, other⟩)))

theorem right (dir : fresh.isDirectory = true) (leaving : action = .removed ∨ action = .renamedFrom)
    (up : p <+: q) (proper : p ≠ q) : Right s view q := by
  by_contra wrong
  have was := (done.kinds stood seen).trans dir
  exact wrong (right_of_eq (done q (.refreshes leaving stood seen was dir up proper wrong)))

end Fulfilled

-- What the hints of a watch look at is the view, and a refresh has nothing to correct where the view is right.
structure Shows (d : Disk) (scope : Scope) (root : Path) (view : View) : Prop where
  looks : ∀ {s : Snapshot} {p : List Name}, s.Tracked root → scope.shows p = true → look d scope s p = view p
  settles : ∀ {s : Snapshot} {p : List Name} {fresh : Entry}, s.Tracked root → view p = some fresh →
    fresh.isDirectory = true → scope.recursive = true → (∀ q, p <+: q → p ≠ q → Right s view q) →
    refresh d scope s (.ofNames p) = (s, [])

theorem refresh_fst {dir : Path} : (refresh d scope s dir).1 = s.replayAll (refresh d scope s dir).2 := by
  unfold refresh
  split <;> rfl

theorem refresh_settled (plain : d.linkFree = true) (looked : d.lookup root true = .ok ⟨place, .dir t inside, budget⟩)
    (tracked : s.Tracked root) (seen : d.view scope place p = some fresh) (dir : fresh.isDirectory = true)
    (deep : scope.recursive = true) (right : ∀ q, p <+: q → p ≠ q → Right s (d.view scope place) q) :
    refresh d scope s (.ofNames p) = (s, []) := by
  have told := exact_refresh plain looked tracked seen dir deep
  have same (q : List Name) : (refresh d scope s (.ofNames p)).1.at? q = s.at? q := by
    by_cases below : p <+: q ∧ p ≠ q
    · exact at?_refresh_right plain looked tracked seen dir deep below.1 below.2 (right q below.1 below.2)
    · exact at?_refresh_beside tracked below
  have silent : (refresh d scope s (.ofNames p)).2 = [] := by
    refine List.eq_nil_iff_forall_not_mem.mpr fun c listed => ?_
    obtain ⟨q, here⟩ := told.named c listed
    have member : c ∈ about (.ofNames q) (refresh d scope s (.ofNames p)).2 :=
      List.mem_filter.mpr ⟨listed, by simp [here, Path.components_ofNames]⟩
    rw [told.each, same, difference_self] at member
    cases member
  refine Prod.ext ?_ silent
  rw [refresh_fst, silent]
  rfl

theorem exists_shows (plain : d.linkFree = true) : ∃ view, Sees d scope root view ∧ Shows d scope root view := by
  cases dir : d.isDir root with
  | true =>
    obtain ⟨place, t, inside, budget, looked⟩ := isDir_iff.mp dir
    refine ⟨d.view scope place, ⟨treelike_view, fun q present => ?_, fun tracked shown below => ?_⟩,
      fun tracked shown => ?_, fun tracked seen kind deep right => ?_⟩
    · obtain ⟨e, seen⟩ := Option.isSome_iff_exists.mp present
      exact view_shows seen
    · exact apply_brought plain looked tracked shown below
    · exact look_view plain looked tracked.rooted shown
    · exact refresh_settled plain looked tracked seen kind deep right
  | false =>
    refine ⟨fun _ => none, ⟨treelike_none, (fun q present => by cases present), fun tracked shown below => ?_⟩,
      fun tracked shown => ?_, (fun tracked seen => by cases seen)⟩
    · exact apply_lost tracked shown dir below
    · exact look_lost (tracked.rooted ▸ dir) (tracked.rooted ▸ tracked.nonempty) (Scope.shows_iff.mp shown).1

section Idle

variable (shows : Shows d scope root view) (tracked : s.Tracked root) (visible : scope.shows p = true)
  (done : Fulfilled view s action p)
include shows tracked visible done

theorem add_fulfilled (arrival : action = .added ∨ action = .renamedTo) : add d scope s p = (s, []) := by
  have below := (Scope.shows_iff.mp visible).1
  unfold add
  rw [shows.looks tracked visible]
  cases seen : view p with
  | none => rfl
  | some fresh =>
    dsimp only
    cases stood : s.at? p with
    | none =>
      have unseen := done.of_unknown stood arrival below
      rw [seen] at unseen
      cases unseen
    | some known =>
      rw [show s.get? (.ofNames p) = some known from stood]
      simp [done.kinds stood seen, done.alike stood seen]

theorem remove_fulfilled (leaving : action = .removed ∨ action = .renamedFrom) :
    Reconcile.remove d scope s p = (s, []) := by
  have other : action ≠ .added ∧ action ≠ .renamedTo := by rcases leaving with rfl | rfl <;> simp
  unfold Reconcile.remove
  rw [shows.looks tracked visible]
  cases stood : s.at? p with
  | none => rw [show s.get? (.ofNames p) = none from stood]
  | some known =>
    rw [show s.get? (.ofNames p) = some known from stood]
    cases seen : view p with
    | none =>
      rw [done.of_unseen seen leaving] at stood
      cases stood
    | some fresh =>
      cases dir : fresh.isDirectory with
      | false => simp [done.kinds stood seen, done.alike stood seen, dir]
      | true =>
        obtain rfl : known = fresh := done.same_dir stood seen dir other
        have path := look_path ((shows.looks tracked visible).trans seen)
        have same : s.insert known = s := insert_known (by rw [path]; exact stood)
        have idle (deep : scope.recursive = true) : refresh d scope s (.ofNames p) = (s, []) :=
          shows.settles tracked seen dir deep fun q up proper => done.right stood seen dir leaving up proper
        simp +contextual [dir, same, idle]

theorem modify_fulfilled (other : action = .modified) : modify d scope s p = (s, []) := by
  unfold modify
  rw [shows.looks tracked visible]
  cases stood : s.at? p with
  | none => rw [show s.get? (.ofNames p) = none from stood]
  | some known =>
    rw [show s.get? (.ofNames p) = some known from stood]
    cases seen : view p with
    | none => rfl
    | some fresh =>
      cases dir : fresh.isDirectory with
      | false => simp [done.kinds stood seen, done.alike stood seen, dir]
      | true =>
        obtain rfl : known = fresh := done.same_dir stood seen dir (by simp [other])
        have path := look_path ((shows.looks tracked visible).trans seen)
        have same : s.insert known = s := insert_known (by rw [path]; exact stood)
        simp [Entry.differs_self, same]

omit visible in
theorem apply_fulfilled (below : p ≠ []) : apply d scope s action p = (s, []) := by
  cases visible : scope.shows p with
  | false => exact apply_hidden below visible
  | true =>
    rw [apply_shown visible]
    cases action with
    | added => exact add_fulfilled shows tracked visible done (.inl rfl)
    | renamedTo => exact add_fulfilled shows tracked visible done (.inr rfl)
    | removed => exact remove_fulfilled shows tracked visible done (.inl rfl)
    | renamedFrom => exact remove_fulfilled shows tracked visible done (.inr rfl)
    | modified => exact modify_fulfilled shows tracked visible done rfl

end Idle

def AllFulfilled (view : View) (s : Snapshot) (records : List Record) : Prop :=
  ∀ r ∈ records, ∀ p, p ≠ [] → r.path.names? = some p → Fulfilled view s r.action p

theorem applyAll_fulfilled (shows : Shows d scope root view) (tracked : s.Tracked root)
    (done : AllFulfilled view s records) : applyAll d scope s records = (s, []) := by
  induction records with
  | nil => rfl
  | cons r rest ih =>
    have later := ih fun other listed => done other (List.mem_cons_of_mem r listed)
    rcases names_cases r with other | ⟨names, below, path⟩
    · rw [applyAll_cons_other other, later]
    · have idle := apply_fulfilled shows tracked (done r List.mem_cons_self names below path) below
      rw [applyAll_cons below path, idle]
      simp only [later, List.append_nil]

section Run

variable (sees : Sees d scope root view) (tracked : s.Tracked root) (shown : Shown scope s)
include sees tracked shown

theorem followed (action : Action) (below : p ≠ []) : Brought view s (Brings view s action p) (apply d scope s action p).1 ∧
    (apply d scope s action p).1.Tracked root ∧ Shown scope (apply d scope s action p).1 := by
  have step : Brought view s (Brings view s action p) (apply d scope s action p).1 := sees.follows tracked shown below
  have effect : Effect d scope s (apply d scope s action p) :=
    apply_effect (tracked.rooted ▸ tracked.nonempty) tracked.closed below action
  refine ⟨step, (effect.replays tracked).2, fun q present => ?_⟩
  by_cases came : Brings view s action p q
  · exact sees.shows q (step.brought q came ▸ present)
  · exact shown q (step.kept q came ▸ present)

theorem Fulfilled.later (before : Fulfilled view s action p) (records : List Record) :
    Fulfilled view (applyAll d scope s records).1 action p := by
  induction records generalizing s with
  | nil => exact before
  | cons r rest ih =>
    rcases names_cases r with other | ⟨names, below, path⟩
    · rw [applyAll_cons_other other]
      exact ih tracked shown before
    · rw [applyAll_cons below path]
      obtain ⟨step, kept, within⟩ := followed sees tracked shown r.action below
      exact ih kept within (before.next sees.tree step)

-- Induction on the records: the first one is fulfilled by itself and stays so, the others are by the hypothesis.
theorem allFulfilled_applyAll (records : List Record) :
    AllFulfilled view (applyAll d scope s records).1 records := by
  induction records generalizing s with
  | nil => exact fun r listed => absurd listed List.not_mem_nil
  | cons r rest ih =>
    intro hint listed p below path
    rcases names_cases r with other | ⟨names, proper, leads⟩
    · rw [applyAll_cons_other other]
      rcases List.mem_cons.mp listed with rfl | later
      · rcases other with none | top
        · rw [none] at path
          cases path
        · rw [top] at path
          cases path
          exact absurd rfl below
      · exact ih tracked shown hint later p below path
    · rw [applyAll_cons proper leads]
      obtain ⟨step, kept, within⟩ := followed sees tracked shown r.action proper
      rcases List.mem_cons.mp listed with rfl | later
      · obtain rfl : names = p := Option.some.inj (leads.symm.trans path)
        exact (fulfilled_followed sees.tree step).later sees kept within rest
      · exact ih kept within hint later p below path

end Run

theorem allFulfilled_lost (sees : Sees d scope root view) (shows : Shows d scope root view)
    (tracked : (Snapshot.empty root).Tracked root) (lost : d.isDir root = false) (records : List Record) :
    AllFulfilled view (.empty root) records := by
  intro r _ p below _ q brings
  obtain ⟨_, seen, _⟩ := brings.of_unknown (at?_empty root)
  have unseen : look d scope (.empty root) p = none := look_lost lost tracked.nonempty below
  rw [← shows.looks tracked (sees.shows p seen), unseen] at seen
  cases seen

-- Whatever came before and whatever a batch says, on a disk without links the same batch delivered again reports
-- nothing, and leaves the snapshot as it is to the last write time.
theorem redelivered_batch_silent (reached : Reachable scope root s) (plain : d.linkFree = true)
    (records : List Record) : batch d scope (batch d scope s records).snapshot records =
      ⟨(batch d scope s records).snapshot, [], (batch d scope s records).rootRemoved⟩ := by
  have tracked := tracked_of_reachable reached
  have shown := shown_of_within (within_of_reachable reached)
  obtain ⟨view, sees, shows⟩ : ∃ view, Sees d scope root view ∧ Shows d scope root view := exists_shows plain
  have kept := (@applyAll_replays d scope s root tracked records).2
  have rooted := kept.rooted.trans tracked.rooted.symm
  cases gone : touchesRoot records && !d.isDir s.root with
  | false =>
    have again : applyAll d scope (applyAll d scope s records).1 records = ((applyAll d scope s records).1, []) :=
      applyAll_fulfilled shows kept (allFulfilled_applyAll sees tracked shown records)
    unfold batch
    simp only [gone, Bool.false_eq_true, if_false, again, rooted]
  | true =>
    have both := gone
    rw [Bool.and_eq_true, Bool.not_eq_true', tracked.rooted] at both
    have bare : batch d scope s records = ⟨.empty root, (batch d scope s records).changes, true⟩ := by
      obtain ⟨_, _, became⟩ := batch_lost tracked both.2 both.1
      rw [became]
    have empty : (Snapshot.empty root).Tracked root := by
      have after := (@batch_replays d scope s root tracked records).2
      rwa [bare] at after
    have again : applyAll d scope (.empty root) records = (.empty root, []) :=
      applyAll_fulfilled shows empty (allFulfilled_lost sees shows empty both.2 records)
    rw [bare]
    unfold batch
    simp only [again, both.1, both.2, show (Snapshot.empty root).root = root from rfl, Bool.not_false, Bool.and_true,
      if_true]
    rfl

namespace Sample

-- The file in the new directory is hinted at before the directory is, and so is known the second time only.
def doubled : List Record := [⟨.modified, beneath⟩, ⟨.removed, .ofName name⟩]

end Sample

theorem redelivered_batch_silent_replaced :
    (batch Sample.nested Sample.whole Sample.held Sample.doubled).changes.length = 3 ∧
      batch Sample.nested Sample.whole (batch Sample.nested Sample.whole Sample.held Sample.doubled).snapshot
        Sample.doubled = ⟨(batch Sample.nested Sample.whole Sample.held Sample.doubled).snapshot, [], false⟩ := by
  have scanned : scan Sample.filled Sample.whole Sample.watched = .ok Sample.held := rfl
  exact ⟨rfl, redelivered_batch_silent (d := Sample.nested) (.scanned scanned) rfl Sample.doubled⟩

end DirWatch.Reconcile
