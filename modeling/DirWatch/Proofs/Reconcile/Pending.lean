import DirWatch.Proofs.Reconcile.Batch
import DirWatch.Proofs.Reconcile.Mutation

namespace DirWatch.Reconcile

open Snapshot Disk

variable {d d' : Disk} {scope : Scope} {s : Snapshot} {root : Path} {view later : View}
  {kind : List Name → Bool} {p q x : List Name} {action : Action} {r : Record}
  {log hints records : List Record}

-- What a run keeps, if `kind` tells for every path whether it is used for a directory: what is tracked is
-- shown, of that kind and below directories, and a hint in the log covers whatever is wrong.
structure Pending (scope : Scope) (kind : List Name → Bool) (view : View) (s : Snapshot) (log : List Record) :
    Prop where
  shown : ∀ q, (s.at? q).isSome = true → scope.shows q = true
  kinds : ∀ q e, s.at? q = some e → e.isDirectory = kind q
  layered : ∀ p q, p ≠ [] → p <+: q → p ≠ q → (s.at? q).isSome = true → kind p = true
  covered : ∀ q, Right s view q ∨ Covered view s log q

def Kinds (kind : List Name → Bool) (view : View) : Prop := ∀ q e, view q = some e → e.isDirectory = kind q

theorem Right.of_same (right : Right s view q) (same : later q = view q) : Right s later q := by
  unfold Right
  rw [same]
  exact right

theorem Covered.weaken (covered : Covered view s log q) (sub : ∀ r ∈ log, r ∈ records) :
    Covered view s records q := by
  obtain ⟨r, listed, rest⟩ := covered
  exact ⟨r, sub r listed, rest⟩

section Kinds

variable (kinds : ∀ q e, s.at? q = some e → e.isDirectory = kind q) (seen : Kinds kind view)
include kinds seen

theorem Covered.of_same (covered : Covered view s log q) (same : later q = view q) :
    Covered later s log q := by
  obtain ⟨r, listed, p, below, path, covers⟩ := covered
  refine ⟨r, listed, p, below, path, ?_⟩
  cases covers with
  | arrives arrival up absent => exact .arrives arrival up absent
  | leaves leaving up present => exact .leaves leaving up present
  | stays present stands => exact .stays present (same ▸ stands)
  | turns up stood stands other => exact absurd ((kinds _ _ stood).trans (seen _ _ stands).symm) other

theorem Covered.of_absent (covered : Covered view s log q) (absent : s.at? q = none) :
    Covered later s log q := by
  obtain ⟨r, listed, p, below, path, covers⟩ := covered
  refine ⟨r, listed, p, below, path, ?_⟩
  cases covers with
  | arrives arrival up absent => exact .arrives arrival up absent
  | leaves leaving up present => exact .leaves leaving up present
  | stays present _ =>
    rw [absent] at present
    cases present
  | turns up stood stands other => exact absurd ((kinds _ _ stood).trans (seen _ _ stands).symm) other

-- What is tracked although it is gone waits for a departure, which covers all that is below it too.
theorem Covered.of_gone (closed : s.Closed) (covered : Covered view s log q) (gone : view q = none)
    (present : (s.at? q).isSome = true) (up : q <+: x) : Covered later s log x := by
  obtain ⟨r, listed, p, below, path, covers⟩ := covered
  refine ⟨r, listed, p, below, path, ?_⟩
  cases covers with
  | arrives arrival higher absent =>
    rw [closed.none_below below absent higher] at present
    cases present
  | leaves leaving higher known => exact .leaves leaving (higher.trans up) known
  | stays _ stands =>
    rw [gone] at stands
    cases stands
  | turns _ stood stands other => exact absurd ((kinds _ _ stood).trans (seen _ _ stands).symm) other

end Kinds

theorem covered_of_hint (tells : Tells r action p) (listed : r ∈ hints) (below : p ≠ [])
    (covers : Covers view s action p x) : Covered view s (log ++ hints) x := by
  obtain ⟨rfl, path⟩ := tells
  exact ⟨r, List.mem_append_right _ listed, p, below, path, covers⟩

section Shift

variable {place : Place}

theorem Pending.view_of_known (pending : Pending scope kind view s log) (present : (s.at? q).isSome = true) :
    d.view scope place q = d.sight place q := if_pos (pending.shown q present)

theorem view_isSome (shown : scope.shows q = true) (stands : (d.sight place q).isSome = true) :
    (d.view scope place q).isSome = true := by
  rw [view, if_pos shown]
  exact stands

theorem view_of_sight_none (gone : d.sight place q = none) : d.view scope place q = none := by
  rw [view, show (d.at? (place ++ q)).map _ = d.sight place q from rfl, gone]
  exact ite_self none

def Safe (view : View) (s : Snapshot) (log : List Record) (q : List Name) : Prop :=
  Right s view q ∨ Covered view s log q

theorem safe_of_gone (closed : s.Closed) (below : p ≠ []) (tells : Tells r action p) (listed : r ∈ hints)
    (leaving : action = .removed ∨ action = .renamedFrom) (up : p <+: x) (gone : d'.sight place x = none) :
    Safe (d'.view scope place) s (log ++ hints) x := by
  cases known : s.at? x with
  | none => exact .inl (right_of_eq (known.trans (view_of_sight_none gone).symm))
  | some e =>
    have present := closed p x below up (by rw [known]; rfl)
    exact .inr (covered_of_hint tells listed below (.leaves leaving up present))

section Pending

variable (pending : Pending scope kind (d.view scope place) s log)
include pending

theorem Pending.safe_of_stands (below : x ≠ []) (tells : Tells r action x) (listed : r ∈ hints)
    (present : (s.at? x).isSome = true) (stands : (d'.sight place x).isSome = true) :
    Safe (d'.view scope place) s (log ++ hints) x := by
  have shown := view_isSome (pending.shown x present) stands
  exact .inr (covered_of_hint tells listed below (.stays present shown))

variable (seen : Kinds kind (d.view scope place))
include seen

theorem Pending.safe_of_same (same : d'.sight place x = d.sight place x) :
    Safe (d'.view scope place) s (log ++ hints) x := by
  have alike : d'.view scope place x = d.view scope place x := by
    unfold view
    exact congrArg (fun e => if scope.shows x then e else none) same
  rcases pending.covered x with right | covered
  · exact .inl (right.of_same alike)
  · exact .inr ((covered.of_same pending.kinds seen alike).weaken fun r => List.mem_append_left hints)

-- What stood there already without being tracked is hidden, or waits for a hint that came before.
theorem Pending.safe_of_unknown (known : s.at? x = none) (stood : (d.sight place x).isSome = true) :
    Safe (d'.view scope place) s (log ++ hints) x := by
  rcases pending.covered x with right | covered
  · have hidden : scope.shows x ≠ true := by
      intro shown
      have present := view_isSome shown stood
      unfold Right at right
      rw [known] at right
      rw [right.none_left] at present
      cases present
    exact .inl (right_of_eq (known.trans (if_neg hidden).symm))
  · exact .inr ((covered.of_absent pending.kinds seen known).weaken fun r => List.mem_append_left _)

theorem Pending.safe_of_arrival (closed : s.Closed) (still : Kinds kind (d'.view scope place)) (deep : q ≠ [])
    (tells : Tells r .renamedTo q) (listed : r ∈ hints) (before : d.sight place q = none ∨
      (∃ e, d.sight place q = some e ∧ e.isDirectory = false) ∧ (d'.sight place q).isSome = true)
    (down : q <+: x) : Safe (d'.view scope place) s (log ++ hints) x := by
  cases known : s.at? q with
  | none => exact .inr (covered_of_hint tells listed deep (.arrives (.inr rfl) down known))
  | some e =>
    have present : (s.at? q).isSome = true := by rw [known]; rfl
    rcases before with absent | ⟨⟨file, stood, leaf⟩, stands⟩
    · have away : d.view scope place q = none := view_of_sight_none absent
      rcases pending.covered q with right | covered
      · unfold Right at right
        rw [known, away] at right
        exact absurd right.none_right (by simp)
      · have waits : Covered (d'.view scope place) s log x :=
          covered.of_gone pending.kinds seen closed away present down
        exact .inr (waits.weaken fun r => List.mem_append_left _)
    · by_cases here : x = q
      · subst here
        exact pending.safe_of_stands deep tells listed present stands
      · -- a file was and is at the target, so nothing is tracked or stands below it
        have was : d.view scope place q = some file := (pending.view_of_known present).trans stood
        have flat : kind q = false := (seen q file was).symm.trans leaf
        obtain ⟨now, is_⟩ := Option.isSome_iff_exists.mp (view_isSome (pending.shown q present) stands)
        have bare := view_file_below is_ ((still q now is_).trans flat) down (Ne.symm here)
        have unknown : s.at? x = none := by
          by_contra tracked
          have standing := Option.isSome_iff_ne_none.mpr tracked
          have upper := pending.layered q x deep down (Ne.symm here) standing
          rw [flat] at upper
          cases upper
        exact .inl (right_of_eq (unknown.trans bare.symm))

-- One change on disk: the new hints cover what it has set wrong, what was wrong before is still covered.
theorem Pending.shift (closed : s.Closed) (still : Kinds kind (d'.view scope place))
    (shift : Shift (d.sight place) (d'.sight place) hints) :
    Pending scope kind (d'.view scope place) s (log ++ hints) := by
  refine ⟨pending.shown, pending.kinds, pending.layered, fun x => ?_⟩
  cases shift with
  | @appears r p below tells stands other =>
    by_cases here : x = p
    · subst here
      cases known : s.at? x with
      | none =>
        have covers : Covers (d'.view scope place) s .added x x :=
          .arrives (.inl rfl) (List.prefix_refl x) known
        exact .inr (covered_of_hint tells (by simp) below covers)
      | some e => exact pending.safe_of_stands below tells (by simp) (by rw [known]; rfl) stands
    · exact pending.safe_of_same seen (other x here)
  | @alters r p below tells stood stands other =>
    by_cases here : x = p
    · subst here
      cases known : s.at? x with
      | none => exact pending.safe_of_unknown seen known stood
      | some e => exact pending.safe_of_stands below tells (by simp) (by rw [known]; rfl) stands
    · exact pending.safe_of_same seen (other x here)
  | @vanishes r p below tells gone other =>
    by_cases up : p <+: x
    · exact safe_of_gone closed below tells (by simp) (.inl rfl) up (gone x up)
    · exact pending.safe_of_same seen (other x up)
  | @moves r k p q below deep tells told before gone other =>
    by_cases down : q <+: x
    · exact pending.safe_of_arrival seen closed still deep told (by simp) before down
    · by_cases up : p <+: x
      · exact safe_of_gone closed below tells (by simp) (.inr rfl) up (gone x up down)
      · exact pending.safe_of_same seen (other x up down)

end Pending

end Shift

theorem Pending.of_view {place : Place} (seen : Kinds kind (d.view scope place))
    (same : ∀ q, s.at? q = d.view scope place q) : Pending scope kind (d.view scope place) s log := by
  refine ⟨fun q present => ?_, fun q e known => seen q e ((same q).symm.trans known),
    fun p q below up proper present => ?_, fun q => .inl (right_of_eq (same q))⟩
  · obtain ⟨e, known⟩ := Option.isSome_iff_exists.mp present
    exact view_shows ((same q).symm.trans known)
  · obtain ⟨e, known⟩ := Option.isSome_iff_exists.mp present
    obtain ⟨dir, stands, directory⟩ := view_above ((same q).symm.trans known) below up proper
    exact (seen p dir stands).symm.trans directory

theorem Pending.fair (pending : Pending scope kind view s log) (named : s.Named) : Fair scope view s := by
  refine ⟨pending.shown, fun p q known fresh up proper stood file _ _ => ?_⟩
  by_contra tracked
  have upper := pending.layered p q (named.ne_nil stood) up proper (Option.isSome_iff_ne_none.mpr tracked)
  rw [← pending.kinds p known stood, file] at upper
  cases upper

section Follow

variable {place : Place} {budget : Nat} {t : Instant} {inside : Listing}
  (plain : d.linkFree = true) (looked : d.lookup root true = .ok ⟨place, .dir t inside, budget⟩)
include plain looked

-- A batch takes its records off the log; what they covered is right, what the others cover is still covered.
theorem Pending.follow {first rest : List Record} (tracked : s.Tracked root)
    (seen : Kinds kind (d.view scope place))
    (pending : Pending scope kind (d.view scope place) s (first ++ rest)) :
    Pending scope kind (d.view scope place) (applyAll d scope s first).1 rest := by
  have fair := pending.fair tracked.named
  have toward := @applyAll_toward d scope s root place budget t inside plain looked tracked first
  have known (q : List Name) (e : Entry) (stands : (applyAll d scope s first).1.at? q = some e) :
      s.at? q = some e ∨ d.view scope place q = some e := by
    rcases toward q with same | ⟨new, _⟩
    · exact .inl (same.symm.trans stands)
    · exact .inr (new.symm.trans stands)
  refine ⟨(fair.toward toward).shown, fun q e stands => ?_, fun p q below up proper present => ?_, fun q => ?_⟩
  · rcases known q e stands with was | is_
    · exact pending.kinds q e was
    · exact seen q e is_
  · obtain ⟨e, stands⟩ := Option.isSome_iff_exists.mp present
    rcases known q e stands with was | is_
    · exact pending.layered p q below up proper (by rw [was]; rfl)
    · obtain ⟨dir, stood, directory⟩ := view_above is_ below up proper
      exact (seen p dir stood).symm.trans directory
  · rcases pending.covered q with right | ⟨r, listed, p, below, path, covers⟩
    · exact .inl (toward.right right)
    · rcases List.mem_append.mp listed with now | later
      · exact .inl (applyAll_right plain looked tracked fair ⟨r, now, p, below, path, covers⟩)
      · exact Covered.persists ⟨r, later, p, below, path, covers⟩ toward

end Follow

end DirWatch.Reconcile
