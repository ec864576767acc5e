import DirWatch.Proofs.Reconcile.Repair

namespace DirWatch.Reconcile

open Snapshot Disk

variable {d : Disk} {scope : Scope} {s : Snapshot} {root : Path} {place : Place} {budget : Nat} {t : Instant}
  {inside : Listing} {p q names : List Name} {records : List Record}

def Covered (view : View) (s : Snapshot) (records : List Record) (q : List Name) : Prop :=
  ∃ r ∈ records, ∃ p, p ≠ [] ∧ r.path.names? = some p ∧ Covers view s r.action p q

theorem Fair.toward {u : Snapshot} (fair : Fair scope (d.view scope place) s)
    (toward : Toward (d.view scope place) s u) : Fair scope (d.view scope place) u := by
  refine toward.fair fair (fun q present => ?_) fun p q fresh up proper seen file => ?_
  · obtain ⟨e, seen⟩ := Option.isSome_iff_exists.mp present
    exact view_shows seen
  · exact view_file_below seen file up proper

theorem Covered.persists {u : Snapshot} (covered : Covered (d.view scope place) s records q)
    (toward : Toward (d.view scope place) s u) :
    Right u (d.view scope place) q ∨ Covered (d.view scope place) u records q := by
  obtain ⟨r, listed, p, some, way, covers⟩ := covered
  rcases covers.persists toward with right | covers
  · exact .inl right
  · exact .inr ⟨r, listed, p, some, way, covers⟩

theorem batch_eq (dir : d.isDir s.root = true) : batch d scope s records =
    ⟨(applyAll d scope s records).1, (applyAll d scope s records).2, false⟩ := by
  unfold batch
  simp [dir]

section Plain

variable (plain : d.linkFree = true) (looked : d.lookup root true = .ok ⟨place, .dir t inside, budget⟩)
include plain looked

theorem applyAll_toward (tracked : s.Tracked root) (records : List Record) :
    Toward (d.view scope place) s (applyAll d scope s records).1 := by
  induction records generalizing s with
  | nil => exact .refl _ s
  | cons r rest ih =>
    rcases names_cases r with other | ⟨names, below, path⟩
    · rw [applyAll_cons_other other]
      exact ih tracked
    · rw [applyAll_cons below path]
      have effect : Effect d scope s (apply d scope s r.action names) :=
        apply_effect (tracked.rooted ▸ tracked.nonempty) tracked.closed below r.action
      exact (effect_toward plain looked tracked effect).trans (ih (effect.replays tracked).2)

-- Induction on the records: the first one either covers the path and sets it right, or leaves it covered
-- by a later one.
theorem applyAll_right (tracked : s.Tracked root) (fair : Fair scope (d.view scope place) s)
    (covered : Covered (d.view scope place) s records q) :
    Right (applyAll d scope s records).1 (d.view scope place) q := by
  induction records generalizing s with
  | nil =>
    obtain ⟨r, listed, _⟩ := covered
    cases listed
  | cons r rest ih =>
    rcases names_cases r with other | ⟨names, below, path⟩
    · rw [applyAll_cons_other other]
      refine ih tracked fair ?_
      obtain ⟨k, listed, p, some, way, covers⟩ := covered
      rcases List.mem_cons.mp listed with rfl | later
      · rcases other with none | top
        · rw [none] at way
          cases way
        · rw [top] at way
          cases way
          exact absurd rfl some
      · exact ⟨k, later, p, some, way, covers⟩
    · rw [applyAll_cons below path]
      have effect : Effect d scope s (apply d scope s r.action names) :=
        apply_effect (tracked.rooted ▸ tracked.nonempty) tracked.closed below r.action
      have toward := effect_toward plain looked tracked effect
      have kept := (effect.replays tracked).2
      have just := fair.toward toward
      obtain ⟨k, listed, p, some, way, covers⟩ := covered
      rcases List.mem_cons.mp listed with rfl | later
      · rw [path] at way
        cases way
        have right := covers.right plain looked tracked fair below
        exact (applyAll_toward plain looked kept rest).right right
      · rcases covers.persists toward with right | covers
        · exact (applyAll_toward plain looked kept rest).right right
        · exact ih kept just ⟨k, later, p, some, way, covers⟩

end Plain

-- A path at which two scans tell different things: something stands there in only one of them, or as a
-- file in one and a directory in the other, or as a file of another size or write time.
def Differing (s t : Snapshot) (names : List Name) : Prop :=
  match s.at? names, t.at? names with
  | none, none => False
  | none, some _ | some _, none => True
  | some old, some new => old.isDirectory ≠ new.isDirectory ∨
      old.isDirectory = false ∧ new.isDirectory = false ∧ (old.size ≠ new.size ∨ old.written ≠ new.written)

def Outermost (s t : Snapshot) (names : List Name) : Prop :=
  Differing s t names ∧ ∀ above, above <+: names → above ≠ names → ¬Differing s t above

-- The record that a path needs: an arrival or a departure if it is in one of the scans only, else any.
def Hinted (s t : Snapshot) (records : List Record) (names : List Name) : Prop :=
  match s.at? names, t.at? names with
  | none, some _ => ∃ r ∈ records, r.path.names? = some names ∧ (r.action = .added ∨ r.action = .renamedTo)
  | some _, none => ∃ r ∈ records, r.path.names? = some names ∧ (r.action = .removed ∨ r.action = .renamedFrom)
  | _, _ => ∃ r ∈ records, r.path.names? = some names

theorem differing_iff {u v : Snapshot} : Differing u v q ↔ ¬Entry.Matches (u.at? q) (v.at? q) := by
  unfold Differing
  cases u.at? q with
  | none => cases v.at? q <;> simp [Entry.Matches]
  | some old =>
    cases v.at? q with
    | none => simp [Entry.Matches]
    | some new =>
      simp only [Entry.Matches, Entry.differs_eq_false_iff]
      cases old.isDirectory <;> cases new.isDirectory <;> simp [Classical.or_iff_not_imp_left, and_comm]

theorem exists_outermost {u v : Snapshot} (differs : Differing u v q) : ∃ p, p <+: q ∧ Outermost u v p := by
  induction size : q.length using Nat.strongRecOn generalizing q with
  | ind size' ih =>
    by_cases deeper : ∃ above, above <+: q ∧ above ≠ q ∧ Differing u v above
    · obtain ⟨above, up, proper, differs⟩ := deeper
      have shorter : above.length < q.length :=
        lt_of_le_of_ne up.length_le fun same => proper (up.eq_of_length same)
      obtain ⟨p, higher, outermost⟩ := ih above.length (size ▸ shorter) differs rfl
      exact ⟨p, higher.trans up, outermost⟩
    · refine ⟨q, List.prefix_refl q, differs, fun above up proper differs => ?_⟩
      exact deeper ⟨above, up, proper, differs⟩

theorem tracked_of_matches {old : Snapshot} (alike : s.Matches old) (rooted : s.root = root) (keyed : s.Keyed)
    (sound : old.Tracked root) : s.Tracked root := by
  have present (q : List Name) : (s.at? q).isSome = (old.at? q).isSome := (alike (.ofNames q)).isSome
  refine ⟨sound.nonempty, rooted, keyed, fun p e found => ?_, fun above q some up found => ?_⟩
  · have match_ := alike p
    rw [found] at match_
    obtain ⟨k, listed, _⟩ := match_.some_left
    exact sound.named p k listed
  · rw [present] at found ⊢
    exact sound.closed above q some up found

section Equivalence

variable {old new : Snapshot} {before : Disk} {home : Place}
  (scanned : ∀ q, old.at? q = before.view scope home q) (alike : s.Matches old)
include scanned alike

theorem fair_of_matches (view : View) : Fair scope view s := by
  constructor
  · intro q present
    obtain ⟨e, found⟩ := Option.isSome_iff_exists.mp ((alike (.ofNames q)).isSome ▸ present)
    exact view_shows ((scanned q).symm.trans found)
  · intro p q known fresh up proper stood file _ _
    have match_ := alike (.ofNames p)
    rw [show s.get? (.ofNames p) = some known from stood] at match_
    obtain ⟨k, listed, same⟩ := match_.some_left
    have kind : k.isDirectory = false := (Entry.isDirectory_of_differs same).symm.trans file
    have bare := view_file_below ((scanned p).symm.trans listed) kind up proper
    have gone := alike (.ofNames q)
    rw [show old.get? (.ofNames q) = none from (scanned q).trans bare] at gone
    exact gone.none_right

theorem covered_of_hinted (fresh : ∀ q, new.at? q = d.view scope place q) (outermost : Outermost old new p)
    (hinted : Hinted old new records p) (up : p <+: q) (differs : Differing old new q) :
    Covered (d.view scope place) s records q := by
  have match_ : Entry.Matches (s.at? p) (old.at? p) := alike (.ofNames p)
  have here := outermost.1
  unfold Differing at here
  unfold Hinted at hinted
  cases was : old.at? p with
  | none =>
    rw [was] at here hinted match_
    cases stands : new.at? p with
    | none => simp [stands] at here
    | some k =>
      rw [stands] at hinted
      obtain ⟨r, listed, path, arrival⟩ := hinted
      have below := (Scope.shows_iff.mp (view_shows ((fresh p).symm.trans stands))).1
      exact ⟨r, listed, p, below, path, .arrives arrival up match_.none_right⟩
  | some o =>
    rw [was] at here hinted match_
    obtain ⟨known, stood, same⟩ := match_.some_right
    have below := (Scope.shows_iff.mp (view_shows ((scanned p).symm.trans was))).1
    cases stands : new.at? p with
    | none =>
      rw [stands] at hinted
      obtain ⟨r, listed, path, leaving⟩ := hinted
      exact ⟨r, listed, p, below, path, .leaves leaving up (by rw [stood]; rfl)⟩
    | some k =>
      rw [stands] at here hinted
      obtain ⟨r, listed, path⟩ := hinted
      have seen := (fresh p).symm.trans stands
      have kind := Entry.isDirectory_of_differs same
      rcases here with kinds | ⟨file, still, _⟩
      · exact ⟨r, listed, p, below, path, .turns up stood seen (kind ▸ kinds)⟩
      · -- nothing lies below a path that is a file in both scans
        have top : p = q := by
          by_contra proper
          have one := view_file_below ((scanned p).symm.trans was) file up proper
          have two := view_file_below seen still up proper
          rw [← scanned] at one
          rw [← fresh] at two
          simp [Differing, one, two] at differs
        subst top
        exact ⟨r, listed, p, below, path, .stays (by rw [stood]; rfl) (by rw [seen]; rfl)⟩

end Equivalence

-- One batch brings a snapshot that matches a scan of one disk in line with another disk, whatever else
-- it holds and in whatever order.
theorem batch_reconciles {before after : Disk} (plain : before.linkFree = true) (free : after.linkFree = true)
    (dir : before.isDir root = true) (still : after.isDir root = true) :
    ∃ old new, scan before scope root = .ok old ∧ scan after scope root = .ok new ∧
      ∀ (s : Snapshot) (records : List Record), s.root = root → s.Keyed → s.agrees old = true →
        (∀ p, Outermost old new p → Hinted old new records p) →
        (batch after scope s records).rootRemoved = false ∧
          (batch after scope s records).snapshot.agrees new = true := by
  obtain ⟨home, t, inside, budget, looked⟩ := isDir_iff.mp dir
  obtain ⟨place, t', inside', budget', found⟩ := isDir_iff.mp still
  obtain ⟨old, one, scanned⟩ := scan_plain plain looked
  obtain ⟨new, two, fresh⟩ := scan_plain free found
  refine ⟨old, new, one, two, fun s records rooted keyed agrees hinted => ?_⟩
  have sound := tracked_scan one
  have alike := (agrees_iff keyed sound.keyed).mp agrees
  have tracked := tracked_of_matches alike rooted keyed sound
  have fair := fair_of_matches scanned alike (after.view scope place)
  rw [batch_eq (rooted ▸ still)]
  refine ⟨rfl, ?_⟩
  have kept := (@applyAll_replays after scope s root tracked records).2
  refine (agrees_iff kept.keyed (tracked_scan two).keyed).mpr
    (matches_of_at? kept.named (tracked_scan two).named fun q => ?_)
  rw [fresh q]
  by_cases differs : Differing old new q
  · obtain ⟨p, up, outermost⟩ := exists_outermost differs
    exact applyAll_right free found tracked fair
      (covered_of_hinted scanned alike fresh outermost (hinted p outermost) up differs)
  · have same : Entry.Matches (old.at? q) (new.at? q) := by
      rw [differing_iff] at differs
      exact Classical.not_not.mp differs
    refine (applyAll_toward free found tracked records).right ?_
    have here : Entry.Matches (s.at? q) (old.at? q) := alike (.ofNames q)
    unfold Right
    rw [← fresh q]
    exact here.trans same

theorem batch_reconciles_arrival :
    (batch Sample.filled Sample.whole (.empty Sample.watched)
      [⟨.removed, .ofName Sample.name⟩, ⟨.renamedTo, .ofName Sample.name⟩]).rootRemoved = false ∧
    (batch Sample.filled Sample.whole (.empty Sample.watched)
      [⟨.removed, .ofName Sample.name⟩, ⟨.renamedTo, .ofName Sample.name⟩]).snapshot.agrees
        Sample.held = true := by
  have dir : Sample.bare.isDir Sample.watched = true := rfl
  have still : Sample.filled.isDir Sample.watched = true := rfl
  obtain ⟨old, new, one, two, all⟩ := @batch_reconciles Sample.whole Sample.watched _ _ rfl rfl dir still
  have was : scan Sample.bare Sample.whole Sample.watched = .ok (.empty Sample.watched) := rfl
  have is_ : scan Sample.filled Sample.whole Sample.watched = .ok Sample.held := rfl
  rw [was] at one
  rw [is_] at two
  cases one
  cases two
  refine all _ _ rfl (keyed_empty _) rfl fun p outermost => ?_
  by_cases here : p = [Sample.name]
  · subst here
    exact ⟨⟨.renamedTo, .ofName Sample.name⟩, by simp, rfl, .inr rfl⟩
  · have absent : Sample.held.at? p = none := at?_insert_other (a := [Sample.name]) rfl here
    have differs := outermost.1
    simp [Differing, absent] at differs

end DirWatch.Reconcile
