import DirWatch.Proofs.Reconcile.Events
import DirWatch.Proofs.Reconcile.Lost

namespace DirWatch.Reconcile

open Snapshot Disk

variable {d : Disk} {scope : Scope} {s u : Snapshot} {root : Path} {place : Place} {budget : Nat} {t : Instant}
  {inside : Listing} {view : View} {p q : List Name} {known fresh : Entry} {action : Action}

-- Something unknown comes with all below its highest unknown ancestor; something known goes, or turns into
-- another kind of thing, with all below it; an entry of one kind is renewed by itself; and a directory that is
-- said to be gone, but stands, is brought in line wherever a report would tell a difference below it.
inductive Brings (view : View) (s : Snapshot) (action : Action) (p : List Name) : List Name → Prop
  | arrives {a q : List Name} : action = .added ∨ action = .renamedTo → (view p).isSome = true → a ≠ [] →
      a <+: p → s.at? a = none → a <+: q → Brings view s action p q
  | leaves {q : List Name} : action = .removed ∨ action = .renamedFrom → (s.at? p).isSome = true →
      view p = none → p <+: q → Brings view s action p q
  | turns {q : List Name} {known fresh : Entry} : s.at? p = some known → view p = some fresh →
      known.isDirectory ≠ fresh.isDirectory → p <+: q → Brings view s action p q
  | renews {known fresh : Entry} : s.at? p = some known → view p = some fresh →
      known.isDirectory = fresh.isDirectory →
      known.differs fresh = true ∨ fresh.isDirectory = true ∧ action ≠ .added ∧ action ≠ .renamedTo →
      Brings view s action p p
  | refreshes {q : List Name} {known fresh : Entry} : action = .removed ∨ action = .renamedFrom →
      s.at? p = some known → view p = some fresh → known.isDirectory = true → fresh.isDirectory = true →
      p <+: q → p ≠ q → ¬Right s view q → Brings view s action p q

def Shown (scope : Scope) (s : Snapshot) : Prop := ∀ q, (s.at? q).isSome = true → scope.shows q = true

-- From `s` to `u`, these paths were brought to what the view shows, and no others.
structure Brought (view : View) (s : Snapshot) (brings : List Name → Prop) (u : Snapshot) : Prop where
  brought : ∀ q, brings q → u.at? q = view q
  kept : ∀ q, ¬brings q → u.at? q = s.at? q

theorem Brought.idle {brings : List Name → Prop} (none : ∀ q, ¬brings q) : Brought view s brings s :=
  ⟨fun q brings => absurd brings (none q), fun _ _ => rfl⟩

theorem Brought.below {brings : List Name → Prop} {a : List Name} (whole : ∀ q, brings q ↔ a <+: q)
    (inside : ∀ q, a <+: q → u.at? q = view q) (outside : ∀ q, ¬a <+: q → u.at? q = s.at? q) :
    Brought view s brings u :=
  ⟨fun q brings => inside q ((whole q).mp brings), fun q other => outside q fun up => other ((whole q).mpr up)⟩

namespace Brings

variable (brings : Brings view s action p q)
include brings

theorem of_unknown (absent : s.at? p = none) :
    (action = .added ∨ action = .renamedTo) ∧ (view p).isSome = true ∧
      ∃ a, a ≠ [] ∧ a <+: p ∧ s.at? a = none ∧ a <+: q := by
  cases brings with
  | arrives arrival seen some up gone below => exact ⟨arrival, seen, _, some, up, gone, below⟩
  | leaves _ stood => simp [absent] at stood
  | turns stood => simp [absent] at stood
  | renews stood => simp [absent] at stood
  | refreshes _ stood => simp [absent] at stood

theorem of_unseen (gone : view p = none) :
    (action = .removed ∨ action = .renamedFrom) ∧ (s.at? p).isSome = true ∧ p <+: q := by
  cases brings with
  | arrives _ seen => simp [gone] at seen
  | leaves leaving stood _ up => exact ⟨leaving, stood, up⟩
  | turns _ seen => simp [gone] at seen
  | renews _ seen => simp [gone] at seen
  | refreshes _ _ seen => simp [gone] at seen

theorem below_of_known (closed : s.Closed) (stood : s.at? p = some known) : p <+: q := by
  cases brings with
  | arrives _ _ some up gone _ =>
    have absent := closed.none_below some gone up
    rw [stood] at absent
    cases absent
  | leaves _ _ _ up => exact up
  | turns _ _ _ up => exact up
  | renews => exact List.prefix_refl p
  | refreshes _ _ _ _ _ up => exact up

theorem of_kind (closed : s.Closed) (stood : s.at? p = some known) (seen : view p = some fresh)
    (kinds : known.isDirectory = fresh.isDirectory) :
    (q = p ∧ (known.differs fresh = true ∨ fresh.isDirectory = true ∧ action ≠ .added ∧ action ≠ .renamedTo)) ∨
      ((action = .removed ∨ action = .renamedFrom) ∧ fresh.isDirectory = true ∧ p <+: q ∧ p ≠ q ∧
        ¬Right s view q) := by
  cases brings with
  | arrives _ _ some up gone _ =>
    have absent := closed.none_below some gone up
    rw [stood] at absent
    cases absent
  | leaves _ _ gone => simp [seen] at gone
  | turns stood' seen' other =>
    rw [stood] at stood'
    rw [seen] at seen'
    cases stood'
    cases seen'
    exact absurd kinds other
  | renews stood' seen' _ why =>
    rw [stood] at stood'
    rw [seen] at seen'
    cases stood'
    cases seen'
    exact .inl ⟨rfl, why⟩
  | refreshes leaving _ seen' _ is_ up proper wrong =>
    rw [seen] at seen'
    cases seen'
    exact .inr ⟨leaving, is_, up, proper, wrong⟩

end Brings

theorem brings_nothing (absent : s.at? p = none) (gone : view p = none) :
    ¬Brings view s action p q := by
  intro brings
  have seen := (brings.of_unknown absent).2.1
  rw [gone] at seen
  cases seen

section Shown

variable (shown : scope.shows p = true)
include shown

theorem apply_gone (found : look d scope s p = none) (stood : s.at? p = some known) :
    (apply d scope s action p).1 =
      if action = .removed ∨ action = .renamedFrom then s.removeSubtree (.ofNames p) else s := by
  have stood : s.get? (.ofNames p) = some known := stood
  rw [apply_shown shown]
  cases action <;> simp [add, Reconcile.remove, modify, found, stood, dropSubtree]

theorem apply_unknown (absent : s.at? p = none) : (apply d scope s action p).1 =
    if action = .added ∨ action = .renamedTo then (add d scope s p).1 else s := by
  have absent : s.get? (.ofNames p) = none := absent
  rw [apply_shown shown]
  cases action <;> simp [Reconcile.remove, modify, absent]

variable (found : look d scope s p = some fresh) (stood : s.at? p = some known)
  (kinds : known.isDirectory = fresh.isDirectory) (alike : known.differs fresh = false)
include found stood kinds alike

theorem apply_same_file (file : fresh.isDirectory = false) : (apply d scope s action p).1 = s := by
  have stood : s.get? (.ofNames p) = some known := stood
  rw [apply_shown shown]
  cases action <;> simp [add, Reconcile.remove, modify, found, stood, kinds, alike, file]

theorem apply_same_dir (dir : fresh.isDirectory = true) : (apply d scope s action p).1 =
    if action = .added ∨ action = .renamedTo then s
    else if (action = .removed ∨ action = .renamedFrom) ∧ scope.recursive = true then
      (refresh d scope (s.insert fresh) (.ofNames p)).1
    else s.insert fresh := by
  have stood : s.get? (.ofNames p) = some known := stood
  rw [apply_shown shown]
  cases action <;> cases deep : scope.recursive <;>
    simp [add, Reconcile.remove, modify, found, stood, kinds, alike, dir, deep]

end Shown

theorem brought_nothing (below : p ≠ []) (absent : s.at? p = none) (gone : view p = none)
    (found : scope.shows p = true → look d scope s p = none) :
    Brought view s (Brings view s action p) (apply d scope s action p).1 := by
  have idle : (apply d scope s action p).1 = s := by
    cases visible : scope.shows p with
    | false => rw [apply_hidden below visible]
    | true =>
      rw [apply_unknown visible absent]
      simp [add, found visible]
  rw [idle]
  exact .idle fun q => brings_nothing absent gone

theorem brought_drop (closed : s.Closed) (visible : scope.shows p = true) (stood : s.at? p = some known)
    (found : look d scope s p = none) (gone : ∀ q, p <+: q → view q = none) :
    Brought view s (Brings view s action p) (apply d scope s action p).1 := by
  have unseen := gone p (List.prefix_refl p)
  rw [apply_gone visible found stood]
  split
  · rename_i leaving
    refine .below (fun q => ⟨fun brings => brings.below_of_known closed stood, fun up => ?_⟩)
      (fun q up => (at?_removeSubtree_inside up).trans (gone q up).symm)
      fun q outside => at?_removeSubtree_outside outside
    exact .leaves leaving (by rw [stood]; rfl) unseen up
  · rename_i other
    exact .idle fun q brings => other (brings.of_unseen unseen).1

theorem apply_lost (tracked : s.Tracked root) (shown : Shown scope s) (lost : d.isDir root = false)
    (below : p ≠ []) :
    Brought (fun _ => none) s (Brings (fun _ => none) s action p) (apply d scope s action p).1 := by
  have found : look d scope s p = none :=
    look_lost (tracked.rooted ▸ lost) (tracked.rooted ▸ tracked.nonempty) below
  cases stood : s.at? p with
  | none => exact brought_nothing below stood rfl fun _ => found
  | some known => exact brought_drop tracked.closed (shown p (by rw [stood]; rfl)) stood found fun _ _ => rfl

section Plain

variable (plain : d.linkFree = true) (looked : d.lookup root true = .ok ⟨place, .dir t inside, budget⟩)
  (tracked : s.Tracked root)
include plain looked tracked

theorem at?_refresh_right (seen : d.view scope place p = some fresh) (kind : fresh.isDirectory = true)
    (deep : scope.recursive = true) (below : p <+: q) (proper : p ≠ q) (right : Right s (d.view scope place) q) :
    (refresh d scope s (.ofNames p)).1.at? q = s.at? q := by
  obtain ⟨es, scanned, _, _⟩ := entries_view plain looked seen kind deep
  rw [← tracked.rooted] at scanned
  have told := (exact_refresh plain looked tracked seen kind deep).each q
  have alike : Entry.Matches (s.at? q) ((refresh d scope s (.ofNames p)).1.at? q) := by
    rcases at?_refresh_view plain looked tracked seen kind deep below proper with new | ⟨kept, _⟩
    · rw [new]
      exact right
    · rw [kept]
      exact .rfl
  rw [difference_of_matches alike, refresh_ok scanned] at told
  rw [refresh_ok scanned]
  refine get?_replayAll_other fun c listed here => ?_
  have member : c ∈ about (.ofNames q) (corrections s p es) :=
    List.mem_filter.mpr ⟨listed, by simpa using here.symm⟩
  rw [told] at member
  cases member

theorem brought_add (shown : scope.shows p = true) (absent : s.at? p = none)
    (seen : d.view scope place p = some fresh) (arrival : action = .added ∨ action = .renamedTo) :
    Brought (d.view scope place) s (Brings (d.view scope place) s action p) (add d scope s p).1 := by
  obtain ⟨a, top, up, stands, bare, upper, grows⟩ := add_grows plain looked tracked shown absent seen
  have some := (Scope.shows_iff.mp (view_shows stands)).1
  rw [grows]
  refine .below (a := a) (fun q => ⟨fun brings => ?_, fun below => ?_⟩) (fun q below => ?_) fun q outside => ?_
  · -- no unknown ancestor is higher than the one that was brought
    obtain ⟨_, _, b, nonempty, above, gone, below⟩ := brings.of_unknown absent
    refine List.IsPrefix.trans ?_ below
    rcases List.prefix_or_prefix_of_prefix up above with lower | higher
    · exact lower
    · by_cases same : b = a
      · exact same ▸ List.prefix_refl a
      · have present := upper b nonempty higher same
        rw [gone] at present
        cases present
  · exact .arrives arrival (by rw [seen]; rfl) some up (bare a (List.prefix_refl a)) below
  · exact at?_grown_inside plain looked tracked.nonempty stands below (bare q below)
  · exact at?_grown_outside tracked.nonempty (view_path stands) outside

theorem brought_replace (stood : s.at? p = some known) (seen : d.view scope place p = some fresh)
    (kinds : known.isDirectory ≠ fresh.isDirectory) :
    Brought (d.view scope place) s (Brings (d.view scope place) s action p)
      (Reconcile.replace d scope s fresh).1 := by
  rw [replace_eq (tracked.rooted ▸ tracked.nonempty) (view_path seen), tracked.rooted]
  refine .below (fun q => ⟨fun brings => brings.below_of_known tracked.closed stood, fun up => ?_⟩)
    (fun q up => ?_) fun q outside => ?_
  · exact .turns stood seen kinds up
  · exact at?_grown_inside plain looked tracked.nonempty seen up (at?_removeSubtree_inside up)
  · exact (at?_grown_outside tracked.nonempty (view_path seen) outside).trans (at?_removeSubtree_outside outside)

omit plain looked tracked in
theorem brought_insert (seen : d.view scope place p = some fresh)
    (only : ∀ q, Brings (d.view scope place) s action p q ↔ q = p) :
    Brought (d.view scope place) s (Brings (d.view scope place) s action p) (s.insert fresh) := by
  refine ⟨fun q brings => ?_, fun q other => ?_⟩
  · rw [(only q).mp brings, at?_insert_self (view_path seen), seen]
  · exact at?_insert_other (view_path seen) fun here => other ((only q).mpr here)

theorem brought_refresh (stood : s.at? p = some known) (seen : d.view scope place p = some fresh)
    (was : known.isDirectory = true) (is_ : fresh.isDirectory = true) (deep : scope.recursive = true)
    (leaving : action = .removed ∨ action = .renamedFrom) :
    Brought (d.view scope place) s (Brings (d.view scope place) s action p)
      (refresh d scope (s.insert fresh) (.ofNames p)).1 := by
  have inserted := tracked_insert tracked (view_path seen) stood
  have kinds := was.trans is_.symm
  have notAdded : action ≠ .added ∧ action ≠ .renamedTo := by rcases leaving with rfl | rfl <;> simp
  have same (q : List Name) (other : q ≠ p) : (s.insert fresh).at? q = s.at? q :=
    at?_insert_other (view_path seen) other
  have here : (refresh d scope (s.insert fresh) (.ofNames p)).1.at? p = d.view scope place p := by
    rw [at?_refresh_beside inserted (by simp), at?_insert_self (view_path seen), seen]
  refine ⟨fun q brings => ?_, fun q other => ?_⟩
  · rcases brings.of_kind tracked.closed stood seen kinds with ⟨rfl, _⟩ | ⟨_, _, up, proper, wrong⟩
    · exact here
    · rcases at?_refresh_view plain looked inserted seen is_ deep up proper with new | ⟨_, alike⟩
      · exact new
      · rw [same q (Ne.symm proper)] at alike
        exact absurd alike wrong
  · have apart : q ≠ p := by
      rintro rfl
      exact other (.renews stood seen kinds (.inr ⟨is_, notAdded⟩))
    by_cases below : p <+: q ∧ p ≠ q
    · have right : Right s (d.view scope place) q := by
        by_contra wrong
        exact other (.refreshes leaving stood seen was is_ below.1 below.2 wrong)
      have still : Right (s.insert fresh) (d.view scope place) q := right.congr (same q apart)
      rw [at?_refresh_right plain looked inserted seen is_ deep below.1 below.2 still, same q apart]
    · rw [at?_refresh_beside inserted below, same q apart]

variable (shown : Shown scope s)
include shown

theorem brought_same_dir (stood : s.at? p = some known) (seen : d.view scope place p = some fresh)
    (kinds : known.isDirectory = fresh.isDirectory) (alike : known.differs fresh = false)
    (dir : fresh.isDirectory = true) :
    Brought (d.view scope place) s (Brings (d.view scope place) s action p) (apply d scope s action p).1 := by
  have visible := view_shows seen
  have below := (Scope.shows_iff.mp visible).1
  rw [apply_same_dir visible ((look_view plain looked tracked.rooted visible).trans seen) stood kinds alike dir]
  split
  · rename_i arrival
    refine .idle fun q brings => ?_
    rcases brings.of_kind tracked.closed stood seen kinds with ⟨_, changed | ⟨_, other⟩⟩ | ⟨leaving, _⟩
    · rw [alike] at changed
      cases changed
    · exact arrival.elim other.1 other.2
    · rcases leaving with rfl | rfl <;> simp at arrival
  · rename_i other
    rw [not_or] at other
    split
    · rename_i both
      exact brought_refresh plain looked tracked stood seen (kinds.trans dir) dir both.2 both.1
    · rename_i shallow
      refine brought_insert seen fun q => ⟨fun brings => ?_, ?_⟩
      · rcases brings.of_kind tracked.closed stood seen kinds with ⟨here, _⟩ | ⟨leaving, _, up, proper, wrong⟩
        · exact here
        · -- outside a recursive scope nothing is known or shown below a directory
          have hidden : scope.shows q ≠ true := fun visible =>
            shallow ⟨leaving, Scope.recursive_of_shows visible below up proper⟩
          refine absurd (right_of_none ?_ ?_) wrong
          · by_contra known
            exact hidden (shown q (Option.isSome_iff_ne_none.mpr known))
          · by_contra stands
            obtain ⟨e, stands⟩ := Option.ne_none_iff_exists'.mp stands
            exact hidden (view_shows stands)
      · rintro rfl
        exact .renews stood seen kinds (.inr ⟨dir, other⟩)

theorem brought_same_kind (stood : s.at? p = some known) (seen : d.view scope place p = some fresh)
    (kinds : known.isDirectory = fresh.isDirectory) :
    Brought (d.view scope place) s (Brings (d.view scope place) s action p) (apply d scope s action p).1 := by
  have visible := view_shows seen
  have found := (look_view plain looked tracked.rooted visible).trans seen
  cases changed : known.differs fresh with
  | true =>
    have file := (Entry.file_of_differs kinds changed).2.1
    rw [apply_update visible stood found kinds changed]
    refine brought_insert seen fun q => ⟨fun brings => ?_, ?_⟩
    · rcases brings.of_kind tracked.closed stood seen kinds with ⟨here, _⟩ | ⟨_, dir, _⟩
      · exact here
      · rw [file] at dir
        cases dir
    · rintro rfl
      exact .renews stood seen kinds (.inl changed)
  | false =>
    cases kind : fresh.isDirectory with
    | true => exact brought_same_dir plain looked tracked shown stood seen kinds changed kind
    | false =>
      rw [apply_same_file visible found stood kinds changed kind]
      refine .idle fun q brings => ?_
      rcases brings.of_kind tracked.closed stood seen kinds with ⟨_, changed' | ⟨dir, _⟩⟩ | ⟨_, dir, _⟩
      · rw [changed] at changed'
        cases changed'
      · rw [kind] at dir
        cases dir
      · rw [kind] at dir
        cases dir

theorem apply_brought (below : p ≠ []) :
    Brought (d.view scope place) s (Brings (d.view scope place) s action p) (apply d scope s action p).1 := by
  have look (visible : scope.shows p = true) : look d scope s p = d.view scope place p :=
    look_view plain looked tracked.rooted visible
  cases stood : s.at? p with
  | none =>
    cases seen : d.view scope place p with
    | none => exact brought_nothing below stood seen fun visible => (look visible).trans seen
    | some fresh =>
      rw [apply_unknown (view_shows seen) stood]
      split
      · rename_i arrival
        exact brought_add plain looked tracked (view_shows seen) stood seen arrival
      · rename_i other
        exact .idle fun q brings => other (brings.of_unknown stood).1
  | some known =>
    have visible : scope.shows p = true := shown p (by rw [stood]; rfl)
    cases seen : d.view scope place p with
    | none =>
      refine brought_drop tracked.closed visible stood ((look visible).trans seen) fun q up => ?_
      exact view_none_below seen below up
    | some fresh =>
      by_cases kinds : known.isDirectory = fresh.isDirectory
      · exact brought_same_kind plain looked tracked shown stood seen kinds
      · rw [apply_replace visible stood ((look visible).trans seen) kinds]
        exact brought_replace plain looked tracked stood seen kinds

end Plain

end DirWatch.Reconcile
