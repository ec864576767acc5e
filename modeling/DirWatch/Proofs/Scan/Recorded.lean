import DirWatch.Proofs.Reconcile.Idle
import DirWatch.Proofs.Scan.Rising

namespace DirWatch

variable {d : Disk} {scope : Scope} {root base : Path} {place : Place} {budget : Nat} {t u : Instant}
  {inside l : Listing} {names : List Name} {n : Name} {node : Node} {e : Entry} {f : Disk.Found}

namespace Disk

theorem at?_concat (here : d.at? (place ++ [n]) = some node) :
    ∃ t inside, d.at? place = some (.dir t inside) ∧ inside.find? n = some node := by
  rw [at?_append] at here
  obtain ⟨upper, stood, lower⟩ := Option.bind_eq_some_iff.mp here
  obtain ⟨t, inside, rfl⟩ := Node.isDir_of_at? lower
  rw [Node.at?_dir] at lower
  obtain ⟨below, listed, last⟩ := Option.bind_eq_some_iff.mp lower
  rw [Node.at?_nil] at last
  cases last
  exact ⟨t, inside, stood, listed⟩

theorem lookup_listed {last : Bool} (nonempty : root.bytes ≠ [])
    (upper : d.lookup (root.join (.ofNames names)) true = .ok ⟨place ++ names, .dir u l, budget⟩)
    (listed : l.find? n = some node) (plain : last = false ∨ ∀ target w, node ≠ .link target w) :
    d.lookup (root.join (.ofNames (names ++ [n]))) last = .ok ⟨place ++ (names ++ [n]), node, budget⟩ := by
  have within : (Spot.mk (root.join (.ofNames names)) (place ++ names) [] budget).Inside d root names l :=
    ⟨nonempty, rfl, u, upper⟩
  obtain ⟨_, here⟩ := within.here
  rw [within.lookup_child listed, ← List.append_assoc]
  exact resolve_child here listed plain

section Looked

variable (looked : d.lookup root true = .ok ⟨place, .dir t inside, budget⟩)
include looked

theorem lookup_dir_at? (here : d.at? (place ++ names) = some (.dir u l)) :
    d.lookup (root.join (.ofNames names)) true = .ok ⟨place ++ names, .dir u l, budget⟩ := by
  induction names using List.reverseRecOn generalizing u l with
  | nil =>
    rw [List.append_nil] at here ⊢
    rw [at?_of_lookup looked] at here
    cases here
    exact lookup_join_empty looked
  | append_singleton names n ih =>
    rw [← List.append_assoc] at here
    obtain ⟨w, upper, stood, listed⟩ := at?_concat here
    exact lookup_listed (lookup_ok looked).1 (ih stood) listed (.inr (by simp))

theorem lookup_at? (below : names ≠ []) (here : d.at? (place ++ names) = some node) :
    d.lookup (root.join (.ofNames names)) false = .ok ⟨place ++ names, node, budget⟩ := by
  obtain ⟨above, n, rfl⟩ := (List.eq_nil_or_concat' names).resolve_left below
  rw [← List.append_assoc] at here
  obtain ⟨w, upper, stood, listed⟩ := at?_concat here
  exact lookup_listed (lookup_ok looked).1 (lookup_dir_at? looked stood) listed (.inl rfl)

theorem at?_of_direct (plain : scope.followLinks = false) (below : names ≠ []) (direct : d.Direct scope root names)
    (found : d.lookup (root.join (.ofNames names)) false = .ok f) : d.at? (place ++ names) = some f.node := by
  have nonempty := (lookup_ok looked).1
  induction names using List.reverseRecOn generalizing f with
  | nil => exact absurd rfl below
  | append_singleton names n ih =>
    have upper : ∃ u l, d.at? (place ++ names) = some (.dir u l) := by
      by_cases top : names = []
      · rw [top, List.append_nil]
        exact ⟨t, inside, at?_of_lookup looked⟩
      · have up := List.prefix_append names [n]
        have proper : names ≠ names ++ [n] := by simp
        obtain ⟨g, there⟩ := lookup_above nonempty top up proper found false
        have isDir := direct names _ top up proper (plain ▸ stat_ok there)
        have stood := ih top (fun above k some higher other => direct above k some (higher.trans up) fun same => ?_) there
        · obtain ⟨_, node, _⟩ := g
          cases node with
          | dir u l => exact ⟨u, l, stood⟩
          | file => cases isDir
          | link => cases isDir
        · have short := higher.length_le
          rw [same, List.length_append, List.length_singleton] at short
          omega
    obtain ⟨u, l, stood⟩ := upper
    have within : (Spot.mk (root.join (.ofNames names)) (place ++ names) [] budget).Inside d root names l :=
      ⟨nonempty, rfl, u, lookup_dir_at? looked stood⟩
    obtain ⟨node, listed⟩ := within.listed found
    rw [lookup_listed nonempty (lookup_dir_at? looked stood) listed (.inl rfl)] at found
    cases found
    rw [← List.append_assoc]
    exact at?_down stood listed

end Looked

-- What a scan from `place` records, if it does not follow links.
structure Records (d : Disk) (scope : Scope) (place : Place) (names : List Name) : Prop where
  below : names ≠ []
  near : scope.recursive = false → names.length = 1
  kept : ∀ above, above ≠ [] → above <+: names → scope.excludes.excludes (.ofNames above) = false
  dirs : ∀ above, above ≠ [] → above <+: names → above ≠ names →
    ∃ t inside, d.at? (place ++ above) = some (.dir t inside)
  present : ∃ node, d.at? (place ++ names) = some node

theorem Records.shown (records : d.Records scope place names) : scope.shows names = true := by
  refine Scope.shows_iff.mpr ⟨records.below, Reconcile.excluded_eq_false_iff.mpr records.kept, ?_⟩
  cases deep : scope.recursive with
  | true => exact .inl rfl
  | false => exact .inr (records.near deep)

theorem records_iff : d.Records scope place names ↔
    scope.shows names = true ∧ ∃ node, d.at? (place ++ names) = some node := by
  refine ⟨fun records => ⟨records.shown, records.present⟩, fun ⟨shown, node, here⟩ => ?_⟩
  obtain ⟨below, kept, deep⟩ := Scope.shows_iff.mp shown
  refine ⟨below, fun shallow => deep.resolve_left (by simp [shallow]), Reconcile.excluded_eq_false_iff.mp kept,
    fun above _ up proper => ?_, node, here⟩
  obtain ⟨n, rest, rfl⟩ := exists_name_of_prefix up proper
  rw [← List.append_assoc, at?_append] at here
  obtain ⟨upper, stood, lower⟩ := Option.bind_eq_some_iff.mp here
  obtain ⟨t, inside, rfl⟩ := Node.isDir_of_at? lower
  exact ⟨t, inside, stood⟩

end Disk

namespace Snapshot

open Reconcile

variable {s : Snapshot} {p : Path} {es : List Entry}

theorem exists_scan (dir : d.isDir root = true) : ∃ s, scan d scope root = .ok s := by
  obtain ⟨place, t, inside, budget, looked⟩ := Disk.isDir_iff.mp dir
  have here : d.isDir (root.join .empty) = true := Disk.isDir_iff.mpr ⟨_, _, _, _, Disk.lookup_join_empty looked⟩
  obtain ⟨es, found⟩ := Disk.entriesBelow_ok_iff.mpr here
  have entries : d.entriesBelow scope (empty root).root ((empty root).root.join .empty) = .ok es := found
  unfold scan
  simp only [looked, Node.isDir, if_true, scanInto_eq, entries]
  exact ⟨_, rfl⟩

section Unfollowed

variable (scanned : scan d scope root = .ok s) (plain : scope.followLinks = false)
  (looked : d.lookup root true = .ok ⟨place, .dir t inside, budget⟩)
include scanned plain looked

theorem at?_recorded : s.at? names = d.view scope place names := by
  cases stands : s.at? names with
  | some e =>
    obtain ⟨found, shown⟩ := scan_sound scanned stands
    rw [plain] at found
    obtain ⟨f, there, rfl⟩ := Disk.lookup_of_stat found
    have here := Disk.at?_of_direct looked plain (Scope.shows_iff.mp shown).1 (scan_direct scanned stands) there
    exact (Disk.view_eq_some_iff.mpr ⟨shown, f.node, here, rfl⟩).symm
  | none =>
    by_contra seen
    obtain ⟨e, seen⟩ := Option.ne_none_iff_exists'.mp (Ne.symm seen)
    obtain ⟨shown, node, here, rfl⟩ := Disk.view_eq_some_iff.mp seen
    have records : d.Records scope place names := Disk.records_iff.mpr ⟨shown, node, here⟩
    have direct : d.Direct scope root names := by
      intro above k top up proper there
      obtain ⟨u, l, stood⟩ := records.dirs above top up proper
      rw [plain, Disk.stat_ok (Disk.lookup_at? looked top stood)] at there
      cases there
      rfl
    have found := Disk.stat_ok (Disk.lookup_at? looked records.below here)
    rw [← plain] at found
    rw [scan_complete scanned (fun follow => by simp [plain] at follow) shown direct found] at stands
    cases stands

theorem contains_recorded : s.contains p = true ↔
    ∃ names, p.components = names.map .name ∧ d.Records scope place names := by
  constructor
  · intro present
    obtain ⟨e, found⟩ := Option.isSome_iff_exists.mp present
    obtain ⟨names, _, parts⟩ := (tracked_scan scanned).named p e found
    rw [at?_of_components parts, at?_recorded scanned plain looked] at found
    obtain ⟨shown, node, here, _⟩ := Disk.view_eq_some_iff.mp found
    exact ⟨names, parts, Disk.records_iff.mpr ⟨shown, node, here⟩⟩
  · rintro ⟨names, parts, records⟩
    obtain ⟨shown, node, here⟩ := Disk.records_iff.mp records
    have seen : d.view scope place names = some (.ofNode (.ofNames names) node) :=
      Disk.view_eq_some_iff.mpr ⟨shown, node, here, rfl⟩
    rw [contains, at?_of_components parts, at?_recorded scanned plain looked, seen]
    rfl

end Unfollowed

-- The snapshot that is kept after a scan into it; one that fails brings no other.
def afterScan (s : Snapshot) (d : Disk) (scope : Scope) (dir : Path) : Snapshot :=
  match s.scanInto d scope dir with
  | .ok (t, _) => t
  | .error _ => s

-- What it means that the entries found by a walk were taken in, and the new ones among their paths told.
structure TakenIn (s : Snapshot) (found : List Entry) (t : Snapshot) (added : List Path) : Prop where
  taken : ∀ e ∈ found, t.get? e.path = some e
  untouched : ∀ p, (∀ e ∈ found, p.components ≠ e.path.components) → t.get? p = s.get? p
  new : ∀ p, p ∈ added ↔ s.contains p = false ∧ ∃ e ∈ found, e.path = p
  increasing : added.Pairwise fun p q => compare p q = .lt

theorem takenIn_absorb (sorted : Sorted es) : TakenIn s es (s.absorb es).1 (s.absorb es).2 := by
  rw [absorb_fst, absorb_snd sorted.apart]
  refine ⟨fun e listed => get?_insertAll_mem sorted.apart listed rfl, fun p other => get?_insertAll_other other,
    fun p => ?_, List.pairwise_map.mpr (sorted.filter _)⟩
  simp only [List.mem_map, List.mem_filter, Bool.not_eq_eq_eq_not, Bool.not_true]
  constructor
  · rintro ⟨e, ⟨listed, unknown⟩, rfl⟩
    exact ⟨unknown, e, listed, rfl⟩
  · rintro ⟨unknown, e, listed, rfl⟩
    exact ⟨e, ⟨listed, unknown⟩, rfl⟩

-- Where links are not followed, a scan of a directory records what stands at a path exactly if
-- directories lead there and the scope leaves nothing on the way out. A scan into any snapshot takes in
-- what its walk finds below, tells what of it was new, and leaves the rest; one that fails leaves
-- everything so.
theorem scan_records_what_stands (d : Disk) (scope : Scope) (root : Path) :
    (scope.followLinks = false → d.isDir root = true → ∃ s f, d.lookup root true = .ok f ∧ scan d scope root = .ok s ∧
      ∀ p, (s.contains p = true ↔ ∃ names, p.components = names.map .name ∧ d.Records scope f.place names) ∧
        ∀ names e, p.components = names.map .name → s.get? p = some e → d.stat root (.ofNames names) false = .ok e) ∧
    ∀ (s : Snapshot) (dir : Path), match s.scanInto d scope dir with
      | .ok (t, added) => d.isDir (s.root.join dir) = true ∧ s.afterScan d scope dir = t ∧ ∃ found,
          d.entriesBelow scope s.root (s.root.join dir) = .ok found ∧ Sorted found ∧
          (∀ e ∈ found, ∃ more : List Name, more ≠ [] ∧
            s.root.components ++ e.path.components = (s.root.join dir).components ++ more.map .name) ∧
          TakenIn s found t added
      | .error _ => d.isDir (s.root.join dir) = false ∧ s.afterScan d scope dir = s := by
  refine ⟨fun plain dir => ?_, fun s dir => ?_⟩
  · obtain ⟨place, t, inside, budget, looked⟩ := Disk.isDir_iff.mp dir
    obtain ⟨s, scanned⟩ : ∃ s, scan d scope root = .ok s := exists_scan dir
    refine ⟨s, _, looked, scanned, fun p => ⟨contains_recorded scanned plain looked, fun names e parts found => ?_⟩⟩
    rw [at?_of_components parts] at found
    exact plain ▸ (scan_sound scanned found).1
  · have isDir : (∃ es, d.entriesBelow scope s.root (s.root.join dir) = .ok es) ↔ _ := Disk.entriesBelow_ok_iff
    unfold afterScan
    rw [scanInto_eq]
    cases scanned : d.entriesBelow scope s.root (s.root.join dir) with
    | error e =>
      refine ⟨?_, rfl⟩
      rw [scanned] at isDir
      simpa using isDir
    | ok found =>
      have rising := Disk.entriesBelow_rising scanned
      refine ⟨isDir.mp ⟨found, scanned⟩, rfl, found, rfl, rising.sorted, fun e listed => ?_,
        takenIn_absorb rising.sorted⟩
      obtain ⟨n, _, more, place⟩ := rising.under e listed
      exact ⟨n :: more, by simp, place⟩

-- The link is recorded as it stands, and nothing behind it; a scan into a snapshot that knows the directory as a file
-- takes in what it holds.
theorem scan_records_what_stands_linked :
    (∃ s, scan Sample.linked Sample.whole Sample.watched = .ok s ∧
      s.get? (.ofName Sample.shortcut) = some ⟨.ofName Sample.shortcut, false, some .epoch, 1⟩ ∧
      Sample.linked.stat Sample.watched (.ofName Sample.shortcut) false =
        .ok ⟨.ofName Sample.shortcut, false, some .epoch, 1⟩ ∧
      ¬∃ names, (Path.ofNames [Sample.shortcut, Sample.name]).components = names.map .name ∧
        Sample.linked.Records Sample.whole [Sample.top] names) ∧
    ∃ t found, Sample.held.scanInto Sample.nested Sample.whole (.ofName Sample.name) = .ok (t, [Sample.beneath]) ∧
      TakenIn Sample.held found t [Sample.beneath] := by
  obtain ⟨⟨s, f, looked, scanned, all⟩, _⟩ :=
    (scan_records_what_stands Sample.linked Sample.whole Sample.watched).imp_left fun scans => scans rfl rfl
  have same : scan Sample.linked Sample.whole Sample.watched = .ok _ := rfl
  have there : Sample.linked.lookup Sample.watched true = .ok ⟨[Sample.top], _, _⟩ := rfl
  rw [same] at scanned
  rw [there] at looked
  cases scanned
  cases looked
  refine ⟨⟨_, same, rfl, (all (.ofName Sample.shortcut)).2 [Sample.shortcut] _ rfl rfl, ?_⟩, ?_⟩
  · exact fun records => by cases (all (.ofNames [Sample.shortcut, Sample.name])).1.mpr records
  · have into := (scan_records_what_stands Sample.nested Sample.whole Sample.watched).2 Sample.held (.ofName Sample.name)
    obtain ⟨_, _, found, _, _, _, taken⟩ := into
    exact ⟨_, found, rfl, taken⟩

end Snapshot

end DirWatch
