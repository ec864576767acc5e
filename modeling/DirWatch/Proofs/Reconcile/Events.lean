import DirWatch.Proofs.Reconcile.Batch
import DirWatch.Proofs.Snapshot.Exact

namespace DirWatch.Reconcile

open Snapshot Disk
open Entry (difference)

variable {d : Disk} {scope : Scope} {s : Snapshot} {root : Path} {place : Place} {budget : Nat} {t : Instant}
  {inside : Listing} {p q a : List Name} {e known fresh : Entry} {view : View} {step : Step} {es : List Entry}

-- No path is a file in the snapshot and a directory in the view, or the other way round.
def Kindred (view : View) (s : Snapshot) : Prop :=
  ∀ q known fresh, s.at? q = some known → view q = some fresh → known.isDirectory = fresh.isDirectory

theorem Kindred.toward {u : Snapshot} (kindred : Kindred view s) (toward : Toward view s u) :
    Kindred view u := by
  intro q known fresh stands seen
  rcases toward q with same | ⟨new, _⟩
  · exact kindred q known fresh (same ▸ stands) seen
  · rw [stands] at new
    rw [Option.some.inj (new.trans seen)]

theorem once_of_toward {u v : Snapshot} (one : Toward view s u) (two : Toward view u v) (q : List Name) :
    u.at? q = s.at? q ∨ v.at? q = u.at? q := by
  rcases two q with same | ⟨new, _⟩
  · exact .inr same
  · rcases one q with old | ⟨settled, _⟩
    · exact .inl old
    · exact .inr (new.trans settled.symm)

theorem components_prefix (inside : a <+: q) :
    (Path.ofNames a).components <+: (Path.ofNames q).components := by
  rw [Path.components_ofNames, Path.components_ofNames]
  exact inside.map _

theorem among_subtree (keyed : s.Keyed) : among (.ofNames q) (s.subtree (.ofNames p)) =
    if p <+: q then s.at? q else none := by
  refine among_eq_ite keyed.apart_subtree fun e => ?_
  rw [keyed.mem_subtree_iff, show s.at? q = some e ↔ _ from keyed.get?_iff]
  constructor
  · rintro ⟨⟨found, below⟩, here⟩
    exact ⟨prefix_of_components (here ▸ below), found, here⟩
  · rintro ⟨below, found, here⟩
    exact ⟨⟨found, here ▸ components_prefix below⟩, here⟩

theorem among_beforehand (keyed : s.Keyed) : among (.ofNames q) (beforehand s p) =
    if p <+: q ∧ p ≠ q then s.at? q else none := by
  refine among_eq_ite sorted_beforehand.apart fun e => ?_
  rw [mem_beforehand keyed, show s.at? q = some e ↔ _ from keyed.get?_iff]
  constructor
  · rintro ⟨⟨found, below, proper⟩, here⟩
    rw [here] at below proper
    exact ⟨⟨prefix_of_components below, fun same => proper (by rw [same])⟩, found, here⟩
  · rintro ⟨⟨below, proper⟩, found, here⟩
    rw [here]
    exact ⟨⟨found, components_prefix below, fun same => proper (Path.components_ofNames_inj.mp same)⟩, rfl⟩

theorem view_here {more : List Name} (stands : d.view scope place (p ++ more) = some e) :
    e.path.components = (Path.ofNames q).components ↔ p ++ more = q := by
  rw [view_path stands, Path.components_ofNames_inj]

theorem among_afterwards (forest : Forest scope p none es)
    (met : ∀ e, e ∈ es ↔ ∃ more, more ≠ [] ∧ d.view scope place (p ++ more) = some e) :
    among (.ofNames q) (afterwards s es) = if p <+: q ∧ p ≠ q then d.view scope place q else none := by
  refine among_eq_ite sorted_afterwards.apart fun e => ?_
  rw [mem_afterwards forest, met]
  constructor
  · rintro ⟨⟨more, some, stands⟩, here⟩
    obtain rfl := (view_here stands).mp here
    exact ⟨⟨List.prefix_append p more, fun same => some (List.append_right_eq_self.mp same.symm)⟩, stands⟩
  · rintro ⟨⟨⟨more, rfl⟩, proper⟩, stands⟩
    exact ⟨⟨more, fun top => proper (by rw [top, List.append_nil]), stands⟩, (view_here stands).mpr rfl⟩

theorem exact_update (path : fresh.path = .ofNames p) (stood : s.at? p = some known)
    (kinds : known.isDirectory = fresh.isDirectory) (changed : known.differs fresh = true) :
    Exact s [.modified fresh] (s.insert fresh) := by
  refine ⟨fun c told => ?_, fun q => ?_⟩
  · rw [List.mem_singleton.mp told]
    exact ⟨p, by rw [← Path.components_ofNames, ← path]; rfl⟩
  · by_cases here : q = p
    · subst here
      have told : (Change.modified fresh).path.components = (Path.ofNames q).components := by rw [← path]; rfl
      rw [about_cons_same told, stood, at?_insert_self path]
      simp [difference, compareEntries, kinds, changed, about]
    · have other : (Change.modified fresh).path.components ≠ (Path.ofNames q).components := by
        intro same
        exact here (Path.components_ofNames_inj.mp (path ▸ same)).symm
      rw [about_cons_other other, at?_insert_other path here]
      exact difference_self.symm

theorem exact_touch (path : fresh.path = .ofNames p) (stood : s.at? p = some known)
    (was : known.isDirectory = true) (is_ : fresh.isDirectory = true) : Exact s [] (s.insert fresh) := by
  refine .none fun q => ?_
  by_cases here : q = p
  · rw [here, stood, at?_insert_self path]
    exact Entry.differs_eq_false_iff.mpr ⟨was.trans is_.symm, .inl was⟩
  · exact .of_eq (at?_insert_other path here).symm

section Plain

variable (plain : d.linkFree = true) (looked : d.lookup root true = .ok ⟨place, .dir t inside, budget⟩)
include plain looked

theorem among_grown (nonempty : root.bytes ≠ []) (seen : d.view scope place a = some fresh) :
    among (.ofNames q) (grown d scope root fresh) = if a <+: q then d.view scope place q else none := by
  refine among_eq_ite (grown_apart nonempty (view_path seen)) fun e => ?_
  rw [mem_grown plain looked seen]
  constructor
  · rintro ⟨⟨more, stands⟩, here⟩
    obtain rfl := (view_here stands).mp here
    exact ⟨List.prefix_append a more, stands⟩
  · rintro ⟨⟨more, rfl⟩, stands⟩
    exact ⟨⟨more, stands⟩, (view_here stands).mpr rfl⟩

variable (tracked : s.Tracked root)
include tracked

theorem exact_grow (seen : d.view scope place a = some fresh) (bare : ∀ q, a <+: q → s.at? q = none) :
    Exact s ((grown d scope root fresh).map .added) (s.insertAll (grown d scope root fresh)) := by
  have apart : Apart (grown d scope root fresh) := grown_apart tracked.nonempty (view_path seen)
  refine ⟨fun c told => ?_, fun q => ?_⟩
  · obtain ⟨e, listed, rfl⟩ := List.mem_map.mp told
    obtain ⟨more, stands⟩ := (mem_grown plain looked seen).mp listed
    exact ⟨a ++ more, by rw [← Path.components_ofNames, ← view_path stands]; rfl⟩
  · rw [about_added apart, among_grown plain looked tracked.nonempty seen]
    by_cases below : a <+: q
    · rw [if_pos below, bare q below,
        at?_grown_inside plain looked tracked.nonempty seen below (bare q below)]
    · rw [if_neg below, at?_grown_outside tracked.nonempty (view_path seen) below]
      exact difference_self.symm

omit plain looked in
theorem exact_drop (p : List Name) : Exact s ((s.subtree (.ofNames p)).map .removed)
    (s.removeSubtree (.ofNames p)) := by
  refine ⟨fun c told => ?_, fun q => ?_⟩
  · obtain ⟨e, listed, rfl⟩ := List.mem_map.mp told
    obtain ⟨q, _, parts⟩ := tracked.named _ e (tracked.keyed.mem_subtree_iff.mp listed).1
    exact ⟨q, parts⟩
  · rw [about_removed tracked.keyed.apart_subtree, among_subtree tracked.keyed]
    by_cases below : p <+: q
    · rw [if_pos below, at?_removeSubtree_inside below]
    · rw [if_neg below, at?_removeSubtree_outside below]
      exact difference_self.symm

theorem exact_refresh (seen : d.view scope place p = some fresh) (kind : fresh.isDirectory = true)
    (deep : scope.recursive = true) :
    Exact s (refresh d scope s (.ofNames p)).2 (refresh d scope s (.ofNames p)).1 := by
  obtain ⟨es, scanned, forest, met⟩ := entries_view plain looked seen kind deep
  have found : d.entriesBelow scope s.root (s.root.join (.ofNames p)) = .ok es := tracked.rooted ▸ scanned
  have told : (refresh d scope s (.ofNames p)).2 = corrections s p es := by rw [refresh_ok found]
  rw [told]
  refine exact_merge sorted_beforehand sorted_afterwards (fun e listed => ?_) fun q => ?_
  · rcases listed with old | new
    · obtain ⟨q, _, parts⟩ := tracked.named _ e ((mem_beforehand tracked.keyed).mp old).1
      exact ⟨q, parts⟩
    · obtain ⟨more, _, stands⟩ := (met e).mp ((mem_afterwards forest).mp new)
      exact ⟨p ++ more, by rw [view_path stands, Path.components_ofNames]⟩
  · rw [among_beforehand tracked.keyed, among_afterwards forest met]
    by_cases below : p <+: q ∧ p ≠ q
    · rw [if_pos below, if_pos below]
      exact (difference_kept
        (at?_refresh_view plain looked tracked seen kind deep below.1 below.2)).symm
    · rw [if_neg below, if_neg below, at?_refresh_beside tracked below]
      exact difference_self.symm

theorem effect_exact (kindred : Kindred (d.view scope place) s) (effect : Effect d scope s step) :
    Exact s step.2 step.1 := by
  have rooted := tracked.rooted
  cases effect with
  | idle => exact .none fun _ => .rfl
  | @grow a fresh shown found absent upper =>
    rw [look_view plain looked rooted shown] at found
    rw [rooted]
    exact exact_grow plain looked tracked found fun q below =>
      tracked.closed.none_below (Scope.shows_iff.mp shown).1 absent below
  | drop => exact exact_drop tracked _
  | @replace p known fresh shown stood found kinds =>
    rw [look_view plain looked rooted shown] at found
    exact absurd (kindred p known fresh stood found) kinds
  | update shown stood found kinds changed =>
    rw [look_view plain looked rooted shown] at found
    exact exact_update (view_path found) stood kinds changed
  | touch shown stood found was is_ =>
    rw [look_view plain looked rooted shown] at found
    exact exact_touch (view_path found) stood was is_
  | @refresh p known fresh shown stood found was is_ deep =>
    rw [look_view plain looked rooted shown] at found
    have inserted := tracked_insert tracked (view_path found) stood
    have told := exact_refresh plain looked inserted found is_ deep
    refine (exact_touch (view_path found) stood was is_).trans told fun q => ?_
    by_cases here : q = p
    · right
      exact at?_refresh_beside inserted fun below => below.2 here.symm
    · exact .inl (at?_insert_other (view_path found) here)

-- Induction on the records: what the later ones tell is told of places that the first one left alone.
theorem applyAll_exact (kindred : Kindred (d.view scope place) s) (records : List Record) :
    Exact s (applyAll d scope s records).2 (applyAll d scope s records).1 := by
  induction records generalizing s with
  | nil => exact .none fun _ => .rfl
  | cons r rest ih =>
    rcases names_cases r with other | ⟨names, below, path⟩
    · rw [applyAll_cons_other other]
      exact ih tracked kindred
    · rw [applyAll_cons below path]
      have effect : Effect d scope s (apply d scope s r.action names) :=
        apply_effect (tracked.rooted ▸ tracked.nonempty) tracked.closed below r.action
      have toward := effect_toward plain looked tracked effect
      have kept := (effect.replays tracked).2
      have first := effect_exact plain looked tracked kindred effect
      have later := ih kept (kindred.toward toward)
      exact first.trans later (once_of_toward toward (applyAll_toward plain looked kept rest))

end Plain

section Equivalence

variable {old new : Snapshot} {before after : Disk} {home : Place} {records : List Record}
  (scanned : ∀ q, old.at? q = before.view scope home q) (alike : s.Matches old)

include alike in
theorem kindred_of_matches (seen : ∀ q, new.at? q = after.view scope place q)
    (kinds : ∀ q o n, old.at? q = some o → new.at? q = some n → o.isDirectory = n.isDirectory) :
    Kindred (after.view scope place) s := by
  intro q known fresh stood stands
  have here : Entry.Matches (s.at? q) (old.at? q) := alike (.ofNames q)
  rw [stood] at here
  obtain ⟨o, was, same⟩ := here.some_left
  exact (Entry.isDirectory_of_differs same).trans (kinds q o fresh was ((seen q).trans stands))

include scanned alike in
theorem applyAll_right_of_hinted (free : after.linkFree = true)
    (found : after.lookup root true = .ok ⟨place, .dir t inside, budget⟩) (tracked : s.Tracked root)
    (seen : ∀ q, new.at? q = after.view scope place q)
    (hinted : ∀ p, Outermost old new p → Hinted old new records p) (q : List Name) :
    Right (applyAll after scope s records).1 (after.view scope place) q := by
  by_cases differs : Differing old new q
  · obtain ⟨p, up, outermost⟩ := exists_outermost differs
    exact applyAll_right free found tracked (fair_of_matches scanned alike _)
      (covered_of_hinted scanned alike seen outermost (hinted p outermost) up differs)
  · rw [differing_iff, Classical.not_not, seen] at differs
    have here : Entry.Matches (s.at? q) (old.at? q) := alike (.ofNames q)
    exact (applyAll_toward free found tracked records).right (here.trans differs)

end Equivalence

-- As long as no path turns from a file into a directory or back, a batch that covers what is wrong reports
-- what a rescan of the same disk would have reported, and tells of no path twice.
theorem batch_reports_rescan {before after : Disk} (plain : before.linkFree = true)
    (free : after.linkFree = true) (dir : before.isDir root = true) (still : after.isDir root = true) :
    ∃ old new, scan before scope root = .ok old ∧ scan after scope root = .ok new ∧
      ((∀ q o n, old.at? q = some o → new.at? q = some n → o.isDirectory = n.isDirectory) →
        ∀ (s : Snapshot) (records : List Record), s.root = root → s.Keyed → s.agrees old = true →
          (∀ p, Outermost old new p → Hinted old new records p) →
          (batch after scope s records).changes.Perm (s.diff new) ∧
            ((batch after scope s records).changes.map fun c => c.path.components).Nodup ∧
            rescan after scope s = .ok ⟨new, s.diff new, false⟩) := by
  obtain ⟨home, t, inside, budget, looked⟩ := isDir_iff.mp dir
  obtain ⟨place, t', inside', budget', found⟩ := isDir_iff.mp still
  obtain ⟨old, one, scanned⟩ := scan_plain plain looked
  obtain ⟨new, two, seen⟩ := scan_plain free found
  refine ⟨old, new, one, two, fun kinds s records rooted keyed agrees hinted => ?_⟩
  have sound := tracked_scan one
  have reached := tracked_scan two
  have alike := (agrees_iff keyed sound.keyed).mp agrees
  have tracked := tracked_of_matches alike rooted keyed sound
  have kindred : Kindred (after.view scope place) s := kindred_of_matches alike seen kinds
  have toward : Toward (after.view scope place) s (applyAll after scope s records).1 :=
    applyAll_toward free found tracked records
  have told : Exact s (applyAll after scope s records).2 (applyAll after scope s records).1 :=
    applyAll_exact free found tracked kindred records
  have right := applyAll_right_of_hinted scanned alike free found tracked seen hinted
  rw [batch_eq (rooted ▸ still)]
  refine ⟨?_, told.distinct fun q o n stood stands => ?_, ?_⟩
  · -- a path that the batch left alone is right, so the rescan has nothing to tell of it either
    refine told.perm (exact_diff keyed reached.keyed tracked.named reached.named) fun q => difference_kept ?_
    rw [seen q]
    rcases toward q with same | ⟨new, _⟩
    · exact .inr ⟨same, same ▸ right q⟩
    · exact .inl new
  · rcases toward q with same | ⟨new, _⟩
    · rw [same, stood] at stands
      rw [Option.some.inj stands]
    · exact kindred q o n stood (new ▸ stands)
  · unfold rescan
    rw [rooted, two]

theorem batch_reports_rescan_arrival :
    (batch Sample.filled Sample.whole (.empty Sample.watched)
      [⟨.removed, .ofName Sample.name⟩, ⟨.renamedTo, .ofName Sample.name⟩]).changes.Perm
        [.added Sample.file] ∧
    rescan Sample.filled Sample.whole (.empty Sample.watched) =
      .ok ⟨Sample.held, [.added Sample.file], false⟩ := by
  have dir : Sample.bare.isDir Sample.watched = true := rfl
  have still : Sample.filled.isDir Sample.watched = true := rfl
  obtain ⟨old, new, one, two, all⟩ := @batch_reports_rescan Sample.whole Sample.watched _ _ rfl rfl dir still
  have was : scan Sample.bare Sample.whole Sample.watched = .ok (.empty Sample.watched) := rfl
  have is_ : scan Sample.filled Sample.whole Sample.watched = .ok Sample.held := rfl
  rw [was] at one
  rw [is_] at two
  cases one
  cases two
  have kinds : ∀ q o n, (Snapshot.empty Sample.watched).at? q = some o → Sample.held.at? q = some n →
      o.isDirectory = n.isDirectory := fun q o n stood _ => by simp at stood
  have told := all kinds (.empty Sample.watched)
    [⟨.removed, .ofName Sample.name⟩, ⟨.renamedTo, .ofName Sample.name⟩] rfl (keyed_empty _) rfl
    fun p outermost => ?_
  · exact ⟨told.1, told.2.2⟩
  · by_cases here : p = [Sample.name]
    · subst here
      exact ⟨⟨.renamedTo, .ofName Sample.name⟩, by simp, rfl, .inr rfl⟩
    · have absent : Sample.held.at? p = none := at?_insert_other (a := [Sample.name]) rfl here
      have differs := outermost.1
      simp [Differing, absent] at differs

end DirWatch.Reconcile
