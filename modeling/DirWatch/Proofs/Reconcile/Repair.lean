import DirWatch.Proofs.Reconcile.Toward

namespace DirWatch.Reconcile

open Snapshot Disk

variable {d : Disk} {scope : Scope} {s u : Snapshot} {root : Path} {place : Place} {budget : Nat} {t : Instant}
  {inside : Listing} {p q names : List Name} {known fresh : Entry} {action : Action} {step : Step}
  {records : List Record}

section Shown

variable (shown : scope.shows p = true) (stood : s.at? p = some known)
include shown stood

theorem apply_replace (seen : look d scope s p = some fresh) (kinds : known.isDirectory ≠ fresh.isDirectory) :
    apply d scope s action p = Reconcile.replace d scope s fresh := by
  have stood : s.get? (.ofNames p) = some known := stood
  rw [apply_shown shown]
  cases action <;> simp [add, Reconcile.remove, modify, seen, stood, kinds]

theorem apply_update (seen : look d scope s p = some fresh) (kinds : known.isDirectory = fresh.isDirectory)
    (changed : known.differs fresh = true) : apply d scope s action p = update s fresh := by
  have stood : s.get? (.ofNames p) = some known := stood
  have file := (Entry.file_of_differs kinds changed).2.1
  rw [apply_shown shown]
  cases action <;> simp [add, Reconcile.remove, modify, seen, stood, kinds, changed, file]

end Shown

theorem toward_insert (seen : d.view scope place p = some fresh) (stood : s.at? p = some known)
    (kinds : known.isDirectory = fresh.isDirectory) : Toward (d.view scope place) s (s.insert fresh) := by
  intro q
  by_cases here : q = p
  · subst here
    have new := at?_insert_self (s := s) (view_path seen)
    exact .inr ⟨new.trans seen.symm, .inr ⟨known, fresh, stood, new, kinds⟩⟩
  · exact .inl (at?_insert_other (view_path seen) here)

-- A change that shows the view at and below one path, and leaves everything else as it was.
theorem toward_below (p : List Name) (inside : ∀ q, p <+: q → u.at? q = d.view scope place q)
    (outside : ∀ q, ¬p <+: q → u.at? q = s.at? q) : Toward (d.view scope place) s u := by
  intro q
  by_cases below : p <+: q
  · exact .inr ⟨inside q below, .inl fun r up => right_of_eq (inside r (below.trans up))⟩
  · exact .inl (outside q below)

theorem right_of_none (absent : s.at? q = none) (gone : d.view scope place q = none) :
    Right s (d.view scope place) q := right_of_eq (absent.trans gone.symm)

section Plain

variable (plain : d.linkFree = true) (looked : d.lookup root true = .ok ⟨place, .dir t inside, budget⟩)
  (tracked : s.Tracked root)
include plain looked tracked

theorem settled_grown (seen : d.view scope place p = some fresh) (bare : ∀ q, p <+: q → s.at? q = none) :
    Settled (s.insertAll (grown d scope root fresh)) (d.view scope place) p :=
  fun q below => right_of_eq (at?_grown_inside plain looked tracked.nonempty seen below (bare q below))

theorem settled_replace (seen : d.view scope place p = some fresh) :
    Settled (Reconcile.replace d scope s fresh).1 (d.view scope place) p := by
  rw [replace_eq (tracked.rooted ▸ tracked.nonempty) (view_path seen), tracked.rooted]
  exact settled_grown plain looked (tracked_removeSubtree tracked p) seen fun q below =>
    at?_removeSubtree_inside below

theorem right_refresh (seen : d.view scope place p = some fresh) (kind : fresh.isDirectory = true)
    (deep : scope.recursive = true) (below : p <+: q) (proper : p ≠ q) :
    Right (refresh d scope s (.ofNames p)).1 (d.view scope place) q := by
  rcases at?_refresh_view plain looked tracked seen kind deep below proper with new | ⟨kept, alike⟩
  · exact right_of_eq new
  · unfold Right
    rw [kept]
    exact alike

theorem effect_toward (effect : Effect d scope s step) : Toward (d.view scope place) s step.1 := by
  have rooted := tracked.rooted
  have based : s.root.bytes ≠ [] := rooted ▸ tracked.nonempty
  cases effect with
  | idle => exact .refl _ s
  | @grow a fresh shown found absent upper =>
    rw [look_view plain looked rooted shown] at found
    rw [rooted]
    refine toward_below a (fun q below => ?_) fun q below => ?_
    · have bare := tracked.closed.none_below (Scope.shows_iff.mp shown).1 absent below
      exact at?_grown_inside plain looked tracked.nonempty found below bare
    · exact at?_grown_outside tracked.nonempty (view_path found) below
  | @drop p known shown stood found =>
    rw [look_view plain looked rooted shown] at found
    refine toward_below p (fun q below => ?_) fun q below => at?_removeSubtree_outside below
    have bare := view_none_below found (Scope.shows_iff.mp shown).1 below
    exact (at?_removeSubtree_inside below).trans bare.symm
  | @replace p known fresh shown stood found kinds =>
    rw [look_view plain looked rooted shown] at found
    rw [rooted]
    refine toward_below p (fun q below => ?_) fun q below => ?_
    · exact at?_grown_inside plain looked tracked.nonempty found below (at?_removeSubtree_inside below)
    · have kept : (s.removeSubtree (.ofNames p)).at? q = s.at? q := at?_removeSubtree_outside below
      exact (at?_grown_outside tracked.nonempty (view_path found) below).trans kept
  | update shown stood found kinds changed =>
    rw [look_view plain looked rooted shown] at found
    exact toward_insert found stood kinds
  | touch shown stood found was is_ =>
    rw [look_view plain looked rooted shown] at found
    exact toward_insert found stood (was.trans is_.symm)
  | @refresh p known fresh shown stood found was is_ deep =>
    rw [look_view plain looked rooted shown] at found
    have inserted := tracked_insert tracked (view_path found) stood
    have one := toward_insert found stood (was.trans is_.symm)
    refine one.trans fun q => ?_
    by_cases below : p <+: q ∧ p ≠ q
    · rcases at?_refresh_view plain looked inserted found is_ deep below.1 below.2 with new | ⟨kept, _⟩
      · refine .inr ⟨new, .inl fun r up => ?_⟩
        refine right_refresh plain looked inserted found is_ deep (below.1.trans up) ?_
        intro same
        subst same
        exact below.2 (below.1.eq_of_length_le up.length_le)
      · exact .inl kept
    · exact .inl (at?_refresh_beside inserted below)

theorem apply_toward (below : p ≠ []) : Toward (d.view scope place) s (apply d scope s action p).1 :=
  effect_toward plain looked tracked
    (apply_effect (tracked.rooted ▸ tracked.nonempty) tracked.closed below action)

theorem add_grows (shown : scope.shows p = true) (absent : s.at? p = none)
    (seen : d.view scope place p = some fresh) :
    ∃ a top, a <+: p ∧ d.view scope place a = some top ∧ (∀ q, a <+: q → s.at? q = none) ∧
      (∀ above, above ≠ [] → above <+: a → above ≠ a → (s.at? above).isSome = true) ∧
      (add d scope s p).1 = s.insertAll (grown d scope root top) := by
  have based : s.root.bytes ≠ [] := tracked.rooted ▸ tracked.nonempty
  have below := (Scope.shows_iff.mp shown).1
  have bare {a : List Name} (some : a ≠ []) (gone : s.at? a = none) : ∀ q, a <+: q → s.at? q = none :=
    fun q => tracked.closed.none_below some gone
  have get : s.get? (.ofNames p) = none := absent
  have spec := @missingAncestor_spec s p tracked.closed
  unfold add
  rw [look_view plain looked tracked.rooted shown, seen]
  simp only [get]
  cases missing : missingAncestor s p with
  | none =>
    rw [missing] at spec
    refine ⟨p, fresh, List.prefix_refl p, seen, bare below absent, spec, ?_⟩
    simp only [insertNew_eq based (view_path seen) (bare below absent), tracked.rooted]
  | some a =>
    rw [missing] at spec
    obtain ⟨some, above, proper, gone, upper⟩ := spec
    obtain ⟨top, stands, _⟩ := view_above seen some above proper
    refine ⟨a, top, above, stands, bare some gone, upper, ?_⟩
    have look := look_view plain looked tracked.rooted (Scope.shows_above shown some above)
    simp only [look, stands, insertNew_eq based (view_path stands) (bare some gone), tracked.rooted]

theorem stays_right (below : p ≠ []) (stood : s.at? p = some known) (seen : d.view scope place p = some fresh) :
    Right (apply d scope s action p).1 (d.view scope place) p := by
  have shown := view_shows seen
  have found := (look_view plain looked tracked.rooted shown).trans seen
  by_cases kinds : known.isDirectory = fresh.isDirectory
  · cases changed : known.differs fresh with
    | true =>
      rw [apply_update shown stood found kinds changed]
      exact right_of_eq ((at?_insert_self (view_path seen)).trans seen.symm)
    | false =>
      refine (apply_toward plain looked tracked below).right ?_
      unfold Right
      rw [stood, seen]
      exact changed
  · rw [apply_replace shown stood found kinds]
    exact settled_replace plain looked tracked seen p (List.prefix_refl p)

theorem arrives_right (below : p ≠ []) (arrival : action = .added ∨ action = .renamedTo)
    (absent : s.at? p = none) (up : p <+: q) : Right (apply d scope s action p).1 (d.view scope place) q := by
  cases seen : d.view scope place p with
  | none =>
    refine (apply_toward plain looked tracked below).right (right_of_none ?_ ?_)
    · exact tracked.closed.none_below below absent up
    · exact view_none_below seen below up
  | some fresh =>
    have shown := view_shows seen
    obtain ⟨a, top, above, stands, bare, _, grows⟩ := add_grows plain looked tracked shown absent seen
    have same : apply d scope s action p = add d scope s p := by
      rw [apply_shown shown]
      rcases arrival with rfl | rfl <;> rfl
    rw [same, grows]
    exact settled_grown plain looked tracked stands bare q (above.trans up)

variable (fair : Fair scope (d.view scope place) s)
include fair

theorem remains_right (leaving : action = .removed ∨ action = .renamedFrom) (stood : s.at? p = some known)
    (seen : d.view scope place p = some fresh) (was : known.isDirectory = true)
    (still : fresh.isDirectory = true) (up : p <+: q) (proper : p ≠ q) :
    Right (apply d scope s action p).1 (d.view scope place) q := by
  have shown := view_shows seen
  have below := (Scope.shows_iff.mp shown).1
  cases deep : scope.recursive with
  | true =>
    have found := (look_view plain looked tracked.rooted shown).trans seen
    have get : s.get? (.ofNames p) = some known := stood
    have same : apply d scope s action p = refresh d scope (s.insert fresh) (.ofNames p) := by
      rw [apply_shown shown]
      rcases leaving with rfl | rfl
      · simp [Reconcile.remove, found, get, was, still, deep]
      · simp [Reconcile.remove, found, get, was, still, deep]
    have inserted := tracked_insert tracked (view_path seen) stood
    rw [same]
    exact right_refresh plain looked inserted seen still deep up proper
  | false =>
    have hidden : scope.shows q ≠ true := by
      intro visible
      have recursive := Scope.recursive_of_shows visible below up proper
      rw [deep] at recursive
      cases recursive
    refine (apply_toward plain looked tracked below).right (right_of_none ?_ ?_)
    · by_contra known
      exact hidden (fair.shown q (Option.isSome_iff_ne_none.mpr known))
    · by_contra stands
      obtain ⟨e, stands⟩ := Option.ne_none_iff_exists'.mp stands
      exact hidden (view_shows stands)

theorem leaves_right (below : p ≠ []) (leaving : action = .removed ∨ action = .renamedFrom)
    (present : (s.at? p).isSome = true) (up : p <+: q) :
    Right (apply d scope s action p).1 (d.view scope place) q := by
  obtain ⟨known, stood⟩ := Option.isSome_iff_exists.mp present
  have shown := fair.shown p present
  have found := look_view plain looked tracked.rooted shown
  cases seen : d.view scope place p with
  | none =>
    have get : s.get? (.ofNames p) = some known := stood
    have same : apply d scope s action p = dropSubtree s (.ofNames p) := by
      rw [apply_shown shown]
      rcases leaving with rfl | rfl
      · simp [Reconcile.remove, found, seen, get]
      · simp [Reconcile.remove, found, seen, get]
    rw [same]
    exact right_of_eq ((at?_removeSubtree_inside up).trans (view_none_below seen below up).symm)
  | some fresh =>
    by_cases here : p = q
    · subst here
      exact stays_right plain looked tracked below stood seen
    · by_cases kinds : known.isDirectory = fresh.isDirectory
      · cases kind : fresh.isDirectory with
        | false =>
          refine (apply_toward plain looked tracked below).right (right_of_none ?_ ?_)
          · exact fair.layered p q known fresh up here stood (kinds.trans kind) seen kind
          · exact view_file_below seen kind up here
        | true =>
          exact remains_right plain looked tracked fair leaving stood seen (kinds.trans kind) kind up here
      · rw [apply_replace shown stood (found.trans seen) kinds]
        exact settled_replace plain looked tracked seen q up

theorem Covers.right (below : p ≠ []) (covers : Covers (d.view scope place) s action p q) :
    Right (apply d scope s action p).1 (d.view scope place) q := by
  cases covers with
  | arrives arrival up absent => exact arrives_right plain looked tracked below arrival absent up
  | leaves leaving up present => exact leaves_right plain looked tracked fair below leaving present up
  | stays present seen =>
    obtain ⟨known, stood⟩ := Option.isSome_iff_exists.mp present
    obtain ⟨fresh, seen⟩ := Option.isSome_iff_exists.mp seen
    exact stays_right plain looked tracked below stood seen
  | turns up stood seen kinds =>
    have shown := view_shows seen
    rw [apply_replace shown stood ((look_view plain looked tracked.rooted shown).trans seen) kinds]
    exact settled_replace plain looked tracked seen q up

end Plain

end DirWatch.Reconcile
