import DirWatch.Proofs.Reconcile.Report

namespace DirWatch

variable {d : Disk} {scope : Scope} {s : Snapshot} {root : Path} {place : Place} {budget : Nat} {t : Instant}
  {inside : Listing} {a p q names more : List Name} {e fresh known : Entry}

namespace Disk

theorem view_path (seen : d.view scope place names = some e) : e.path = .ofNames names := by
  obtain ⟨_, node, _, rfl⟩ := view_eq_some_iff.mp seen
  rfl

theorem view_shows (seen : d.view scope place names = some e) : scope.shows names = true :=
  (view_eq_some_iff.mp seen).1

theorem view_above (seen : d.view scope place q = some e) (below : p ≠ []) (up : p <+: q) (proper : p ≠ q) :
    ∃ dir, d.view scope place p = some dir ∧ dir.isDirectory = true := by
  obtain ⟨shown, node, here, _⟩ := view_eq_some_iff.mp seen
  obtain ⟨n, rest, rfl⟩ := exists_name_of_prefix up proper
  rw [← List.append_assoc, at?_append] at here
  obtain ⟨upper, stood, lower⟩ := Option.bind_eq_some_iff.mp here
  obtain ⟨t, inside, rfl⟩ := Node.isDir_of_at? lower
  have visible : scope.shows p = true := Scope.shows_above shown below up
  exact ⟨_, view_eq_some_iff.mpr ⟨visible, _, stood, rfl⟩, rfl⟩

theorem view_none_below (gone : d.view scope place p = none) (below : p ≠ []) (up : p <+: q) :
    d.view scope place q = none := by
  by_cases here : p = q
  · rw [← here, gone]
  · by_contra present
    obtain ⟨e, seen⟩ := Option.ne_none_iff_exists'.mp present
    obtain ⟨dir, stood, _⟩ := view_above seen below up here
    rw [gone] at stood
    cases stood

theorem view_file_below (seen : d.view scope place p = some e) (file : e.isDirectory = false) (up : p <+: q)
    (proper : p ≠ q) : d.view scope place q = none := by
  by_contra present
  obtain ⟨deep, stands⟩ := Option.ne_none_iff_exists'.mp present
  have below := (Scope.shows_iff.mp (view_shows seen)).1
  obtain ⟨dir, stood, kind⟩ := view_above stands below up proper
  rw [seen] at stood
  cases stood
  rw [file] at kind
  cases kind

end Disk

namespace Reconcile

open Snapshot Disk

theorem at?_refresh_beside (tracked : s.Tracked root) (outside : ¬(p <+: q ∧ p ≠ q)) :
    (refresh d scope s (.ofNames p)).1.at? q = s.at? q := by
  cases scanned : d.entriesBelow scope s.root (s.root.join (.ofNames p)) with
  | error e => rw [refresh_error scanned]
  | ok es =>
    have forest : Forest scope p none es :=
      Disk.entriesBelow_forest (tracked.rooted ▸ tracked.nonempty) scanned
    rw [refresh_ok scanned]
    exact at?_refresh_outside tracked.keyed forest outside

section Plain

variable (plain : d.linkFree = true) (looked : d.lookup root true = .ok ⟨place, .dir t inside, budget⟩)
include plain looked

theorem look_view (rooted : s.root = root) (shown : scope.shows names = true) :
    look d scope s names = d.view scope place names := by
  unfold look view
  rw [rooted, if_pos shown, stat_plain plain looked (Scope.shows_iff.mp shown).1]

theorem entries_view (seen : d.view scope place p = some fresh) (kind : fresh.isDirectory = true)
    (deep : scope.recursive = true) : ∃ es, d.entriesBelow scope root (root.join (.ofNames p)) = .ok es ∧
      Forest scope p none es ∧ ∀ e, e ∈ es ↔ ∃ more, more ≠ [] ∧ d.view scope place (p ++ more) = some e := by
  obtain ⟨shown, node, here, rfl⟩ := view_eq_some_iff.mp seen
  cases node with
  | dir u l => exact entriesBelow_view plain looked here (Scope.shows_iff.mp shown).2.1 (.inr deep)
  | file => cases kind
  | link => cases kind

theorem mem_contents (seen : d.view scope place a = some fresh) :
    e ∈ contents d scope root fresh ↔ ∃ more, more ≠ [] ∧ d.view scope place (a ++ more) = some e := by
  have below := (Scope.shows_iff.mp (view_shows seen)).1
  unfold contents
  cases deep : fresh.isDirectory && scope.recursive with
  | true =>
    rw [Bool.and_eq_true] at deep
    obtain ⟨es, scanned, _, met⟩ := entries_view plain looked seen deep.1 deep.2
    rw [if_pos rfl, view_path seen, scanned]
    exact met e
  | false =>
    simp only [Bool.false_eq_true, if_false, List.not_mem_nil, false_iff]
    intro given
    obtain ⟨more, some, stands⟩ := given
    have proper : a ≠ a ++ more := fun same => some (List.append_right_eq_self.mp same.symm)
    obtain ⟨dir, stood, kind⟩ := view_above stands below (List.prefix_append a more) proper
    have recursive := Scope.recursive_of_shows (view_shows stands) below (List.prefix_append a more) proper
    rw [seen] at stood
    cases stood
    simp [kind, recursive] at deep

theorem mem_grown (seen : d.view scope place a = some fresh) :
    e ∈ grown d scope root fresh ↔ ∃ more, d.view scope place (a ++ more) = some e := by
  unfold grown
  rw [List.mem_cons, mem_contents plain looked seen]
  constructor
  · intro either
    rcases either with rfl | ⟨more, _, stands⟩
    · exact ⟨[], by rw [List.append_nil, seen]⟩
    · exact ⟨more, stands⟩
  · intro given
    obtain ⟨more, stands⟩ := given
    by_cases top : more = []
    · subst top
      rw [List.append_nil, seen] at stands
      exact .inl (Option.some.inj stands).symm
    · exact .inr ⟨more, top, stands⟩

theorem at?_grown_inside (nonempty : root.bytes ≠ []) (seen : d.view scope place a = some fresh)
    (below : a <+: q) (bare : s.at? q = none) :
    (s.insertAll (grown d scope root fresh)).at? q = d.view scope place q := by
  obtain ⟨more, rfl⟩ := below
  cases stands : d.view scope place (a ++ more) with
  | some e =>
    have listed : e ∈ grown d scope root fresh := (mem_grown plain looked seen).mpr ⟨more, stands⟩
    exact at?_insertAll_mem (grown_apart nonempty (view_path seen)) listed (view_path stands)
  | none =>
    rw [at?_insertAll_other, bare]
    intro e listed
    obtain ⟨other, stood⟩ := (mem_grown plain looked seen).mp listed
    refine ⟨a ++ other, view_path stood, ?_⟩
    intro same
    rw [same, stood] at stands
    cases stands

theorem at?_refresh_view (tracked : s.Tracked root) (seen : d.view scope place p = some fresh)
    (kind : fresh.isDirectory = true) (deep : scope.recursive = true) (below : p <+: q) (proper : p ≠ q) :
    (refresh d scope s (.ofNames p)).1.at? q = d.view scope place q ∨
      (refresh d scope s (.ofNames p)).1.at? q = s.at? q ∧ Entry.Matches (s.at? q) (d.view scope place q) := by
  obtain ⟨es, scanned, forest, met⟩ := entries_view plain looked seen kind deep
  rw [← tracked.rooted] at scanned
  rw [refresh_ok scanned]
  obtain ⟨more, rfl⟩ := below
  have some : more ≠ [] := fun top => proper (by rw [top, List.append_nil])
  rcases at?_refresh_inside tracked.keyed forest (List.prefix_append p more) proper with
    ⟨n, listed, path, stands⟩ | ⟨absent, gone⟩
  · obtain ⟨other, _, stood⟩ := (met n).mp listed
    have alike : p ++ other = p ++ more := Path.ofNames_injective ((view_path stood).symm.trans path)
    have same : other = more := List.append_cancel_left alike
    rw [same] at stood
    rcases stands with new | ⟨kept, o, known, alike⟩
    · exact .inl (new.trans stood.symm)
    · right
      rw [stood, known]
      exact ⟨kept.trans known, alike⟩
  · left
    rw [gone]
    by_contra present
    obtain ⟨e, stood⟩ := Option.ne_none_iff_exists'.mp (Ne.symm present)
    exact absent e ((met e).mpr ⟨more, some, stood⟩) (view_path stood)

end Plain

end Reconcile

end DirWatch
