import DirWatch.Proofs.Scan.Walk
import DirWatch.Proofs.Snapshot.Named
import DirWatch.Reconcile

namespace DirWatch

variable {scope : Scope} {root : Path} {spot : Spot} {names more front : List Name} {low : Option Name}
  {n : Name} {behind : Spot → Name → Path → List Entry} {d : Disk} {place : Place} {budget : Nat}
  {t : Instant} {inside : Listing} {e : Entry}

namespace Reconcile

theorem mem_heads {head : List Name} : head ∈ heads names ↔ head ≠ [] ∧ head <+: names := by
  induction names generalizing head with
  | nil =>
    simp only [heads, List.not_mem_nil, false_iff, not_and, List.prefix_nil]
    exact fun some empty => some empty
  | cons n rest ih =>
    simp only [heads, List.mem_cons, List.mem_map]
    constructor
    · intro either
      rcases either with rfl | ⟨deeper, listed, rfl⟩
      · exact ⟨by simp, by simp⟩
      · exact ⟨by simp, List.cons_prefix_cons.mpr ⟨rfl, (ih.mp listed).2⟩⟩
    · intro given
      obtain ⟨some, above⟩ := given
      obtain ⟨m, deeper, rfl⟩ := List.exists_cons_of_ne_nil some
      obtain ⟨rfl, upper⟩ := List.cons_prefix_cons.mp above
      by_cases top : deeper = []
      · exact .inl (by rw [top])
      · exact .inr ⟨deeper, ih.mpr ⟨top, upper⟩, rfl⟩

theorem excluded_eq_false_iff : excluded scope names = false ↔
    ∀ head, head ≠ [] → head <+: names → scope.excludes.excludes (.ofNames head) = false := by
  simp only [excluded, List.any_eq_false, mem_heads, Bool.not_eq_true]
  exact ⟨fun h head some above => h head ⟨some, above⟩, fun h head listed => h head listed.1 listed.2⟩

end Reconcile

namespace Scope

def shows (scope : Scope) (names : List Name) : Bool :=
  !names.isEmpty && !Reconcile.excluded scope names && (scope.recursive || names.length == 1)

theorem shows_iff : scope.shows names = true ↔ names ≠ [] ∧ Reconcile.excluded scope names = false ∧
    (scope.recursive = true ∨ names.length = 1) := by
  simp only [shows, Bool.and_eq_true, Bool.not_eq_eq_eq_not, Bool.not_true, List.isEmpty_eq_false_iff,
    Bool.or_eq_true, beq_iff_eq, and_assoc]

theorem shows_above (shown : scope.shows names = true) (some : front ≠ []) (above : front <+: names) :
    scope.shows front = true := by
  obtain ⟨_, kept, deep⟩ := shows_iff.mp shown
  refine shows_iff.mpr ⟨some, ?_, ?_⟩
  · rw [Reconcile.excluded_eq_false_iff] at *
    exact fun head one up => kept head one (up.trans above)
  · rcases deep with deep | short
    · exact .inl deep
    · have := above.length_le
      have := List.length_pos_of_ne_nil some
      exact .inr (by omega)

theorem recursive_of_shows (shown : scope.shows names = true) (some : front ≠ []) (above : front <+: names)
    (proper : front ≠ names) : scope.recursive = true := by
  obtain ⟨_, _, deep⟩ := shows_iff.mp shown
  rcases deep with deep | short
  · exact deep
  · have := above.length_le
    have := List.length_pos_of_ne_nil some
    exact absurd (above.eq_of_length (by omega)) proper

def ShowsBelow (scope : Scope) (names more : List Name) : Prop :=
  more ≠ [] ∧
    (∀ front, front ≠ [] → front <+: more → scope.excludes.excludes (.ofNames (names ++ front)) = false) ∧
    (scope.recursive = true ∨ more.length = 1)

theorem showsBelow_one (kept : scope.excludes.excludes (.ofNames (names ++ [n])) = false) :
    scope.ShowsBelow names [n] := by
  refine ⟨by simp, fun front some above => ?_, .inr rfl⟩
  obtain ⟨m, rest, rfl⟩ := List.exists_cons_of_ne_nil some
  obtain ⟨rfl, rest_nil⟩ := List.cons_prefix_cons.mp above
  rw [List.prefix_nil.mp rest_nil]
  exact kept

theorem ShowsBelow.kept (shown : scope.ShowsBelow names (n :: more)) :
    scope.excludes.excludes (.ofNames (names ++ [n])) = false :=
  shown.2.1 [n] (by simp) (by simp)

theorem showsBelow_cons (deep : scope.recursive = true)
    (kept : scope.excludes.excludes (.ofNames (names ++ [n])) = false) (some : more ≠ []) :
    scope.ShowsBelow names (n :: more) ↔ scope.ShowsBelow (names ++ [n]) more := by
  constructor
  · intro given
    obtain ⟨_, all, _⟩ := given
    refine ⟨some, fun front one above => ?_, .inl deep⟩
    have outer := all (n :: front) (by simp) (List.cons_prefix_cons.mpr ⟨rfl, above⟩)
    simpa using outer
  · intro given
    obtain ⟨_, all, _⟩ := given
    refine ⟨by simp, fun front one above => ?_, .inl deep⟩
    obtain ⟨m, rest, rfl⟩ := List.exists_cons_of_ne_nil one
    obtain ⟨rfl, inner⟩ := List.cons_prefix_cons.mp above
    by_cases top : rest = []
    · rw [top]
      exact kept
    · simpa using all rest top inner

theorem showsBelow_iff (kept : Reconcile.excluded scope names = false)
    (deep : names = [] ∨ scope.recursive = true) (some : more ≠ []) :
    scope.ShowsBelow names more ↔ scope.shows (names ++ more) = true := by
  rw [Reconcile.excluded_eq_false_iff] at kept
  rw [shows_iff, Reconcile.excluded_eq_false_iff]
  have width : scope.recursive = true ∨ (names ++ more).length = 1 ↔
      scope.recursive = true ∨ more.length = 1 := by
    rcases deep with rfl | deep
    · rfl
    · simp [deep]
  rw [width]
  constructor
  · intro given
    obtain ⟨_, all, width⟩ := given
    refine ⟨by simp [some], fun head one above => ?_, width⟩
    rcases List.prefix_or_prefix_of_prefix above (List.prefix_append names more) with upper | lower
    · exact kept head one upper
    · obtain ⟨front, rfl⟩ := lower
      by_cases top : front = []
      · subst top
        exact kept _ one (by simp)
      · exact all front top ((List.prefix_append_right_inj names).mp above)
  · intro given
    obtain ⟨_, all, width⟩ := given
    refine ⟨some, fun front one above => ?_, width⟩
    exact all (names ++ front) (by simp [one]) ((List.prefix_append_right_inj names).mpr above)

end Scope

theorem Forest.showsBelow {es : List Entry} (forest : Forest scope names low es) (met : e ∈ es) :
    ∃ more, e.path = .ofNames (names ++ more) ∧ scope.ShowsBelow names more := by
  obtain ⟨n, rest, _, path⟩ := forest.path_below met
  refine ⟨n :: rest, path, by simp, fun front top up => ?_, ?_⟩
  · obtain ⟨back, parts⟩ := up
    by_cases last : back = []
    · rw [last, List.append_nil] at parts
      rw [parts, ← path]
      exact forest.kept met
    · rw [← parts, ← List.append_assoc] at path
      obtain ⟨dir, listed, there, _⟩ := forest.above met top last path
      exact there ▸ forest.kept listed
  · cases deep : scope.recursive with
    | true => exact .inl rfl
    | false =>
      obtain ⟨m, flat⟩ := forest.flat deep met
      rw [path] at flat
      have same := List.append_cancel_left (Path.ofNames_injective flat)
      exact .inr (by rw [same]; rfl)

theorem Forest.shown {es : List Entry} (forest : Forest scope names low es)
    (kept : Reconcile.excluded scope names = false) (deep : names = [] ∨ scope.recursive = true) (met : e ∈ es) :
    ∃ more, e.path = .ofNames (names ++ more) ∧ scope.shows (names ++ more) = true := by
  obtain ⟨more, path, below⟩ := forest.showsBelow met
  exact ⟨more, path, (Scope.showsBelow_iff kept deep below.1).mp below⟩

theorem Listing.mem_bring (nonempty : root.bytes ≠ []) {node : Node} (plain : node.linkFree = true)
    (at_ : spot.path = root.join (.ofNames names))
    (deeper : ∀ t inside, node = .dir t inside → ∀ spot : Spot,
      spot.path = root.join (.ofNames (names ++ [n])) →
        (e ∈ walk scope root behind spot inside ↔ ∃ more, scope.ShowsBelow (names ++ [n]) more ∧
          ∃ below, node.at? more = some below ∧ e = .ofNode (.ofNames (names ++ [n] ++ more)) below)) :
    e ∈ bring scope root behind spot n node ↔ ∃ more, scope.ShowsBelow names (n :: more) ∧
      ∃ below, node.at? more = some below ∧ e = .ofNode (.ofNames (names ++ n :: more)) below := by
  rw [bring_eq nonempty at_]
  cases out : scope.excludes.excludes (.ofNames (names ++ [n])) with
  | true =>
    simp only [if_true, List.not_mem_nil, false_iff]
    intro given
    obtain ⟨more, shown, _⟩ := given
    have kept := shown.kept
    rw [out] at kept
    cases kept
  | false =>
    have top : e = .ofNode (.ofNames (names ++ [n])) node → ∃ more, scope.ShowsBelow names (n :: more) ∧
        ∃ below, node.at? more = some below ∧ e = .ofNode (.ofNames (names ++ n :: more)) below :=
      fun same => ⟨[], Scope.showsBelow_one out, node, Node.at?_nil, same⟩
    simp only [Bool.false_eq_true, if_false]
    cases node with
    | link => cases plain
    | file size t =>
      refine ⟨fun met => top (List.mem_singleton.mp met), ?_⟩
      intro given
      obtain ⟨more, _, below, found, rfl⟩ := given
      cases more with
      | nil =>
        rw [Node.at?_nil] at found
        cases found
        exact List.mem_singleton.mpr rfl
      | cons => cases found
    | dir t inside =>
      have within := deeper t inside rfl (spot.enter n (spot.place ++ [n]) spot.budget)
        (Spot.pathOf_eq nonempty at_)
      constructor
      · intro met
        rcases List.mem_cons.mp met with same | met
        · exact top same
        · split at met
          · rename_i deep
            obtain ⟨more, shown, below, found, rfl⟩ := within.mp met
            refine ⟨more, (Scope.showsBelow_cons deep out shown.1).mpr shown, below, found, ?_⟩
            simp
          · cases met
      · intro given
        obtain ⟨more, shown, below, found, rfl⟩ := given
        by_cases here : more = []
        · subst here
          rw [Node.at?_nil] at found
          cases found
          exact List.mem_cons_self
        · have deep : scope.recursive = true := by
            rcases shown.2.2 with deep | short
            · exact deep
            · exact absurd (by simpa using short) here
          refine List.mem_cons_of_mem _ ?_
          rw [if_pos deep]
          refine within.mpr ⟨more, (Scope.showsBelow_cons deep out here).mp shown, below, found, ?_⟩
          simp

-- A walk without links meets exactly what stands below its place and is shown.
theorem Listing.mem_walk (t : Instant) (nonempty : root.bytes ≠ []) {l : Listing} (plain : l.linkFree = true)
    (ordered : l.orderedAfter low = true) (at_ : spot.path = root.join (.ofNames names)) :
    e ∈ walk scope root behind spot l ↔ ∃ more, scope.ShowsBelow names more ∧
      ∃ node, (Node.dir t l).at? more = some node ∧ e = .ofNode (.ofNames (names ++ more)) node := by
  induction l using induct_cons generalizing low spot names t with
  | done =>
    constructor
    · intro met
      cases met
    · intro given
      obtain ⟨more, ⟨some, _⟩, node, found, _⟩ := given
      obtain ⟨m, rest, rfl⟩ := List.exists_cons_of_ne_nil some
      cases found
  | cons n node rest deeper ih =>
    obtain ⟨_, _, sound, later⟩ := orderedAfter_cons.mp ordered
    rw [linkFree_cons, Bool.and_eq_true] at plain
    have here (more : List Name) : (Node.dir t (cons n node rest)).at? (n :: more) = node.at? more := by
      rw [Node.at?_dir, find?_cons, if_pos rfl, Option.bind_some]
    have other (m : Name) (more : List Name) (ne : n ≠ m) :
        (Node.dir t (cons n node rest)).at? (m :: more) = (Node.dir t rest).at? (m :: more) := by
      rw [Node.at?_dir, Node.at?_dir, find?_cons, if_neg ne]
    have gone (more : List Name) : (Node.dir t rest).at? (n :: more) = none := by
      rw [Node.at?_dir, find?_of_orderedAfter later]
      rfl
    have tree : e ∈ bring scope root behind spot n node ↔ _ :=
      mem_bring nonempty plain.1 at_ fun t inside same spot at_ => by
        subst same
        exact deeper t inside rfl t plain.1 sound at_
    rw [walk_cons, List.mem_append, tree, ih t plain.2 later at_]
    constructor
    · intro either
      rcases either with ⟨more, shown, below, found, rfl⟩ | ⟨more, shown, below, found, rfl⟩
      · exact ⟨n :: more, shown, below, (here more).trans found, rfl⟩
      · obtain ⟨m, others, rfl⟩ := List.exists_cons_of_ne_nil shown.1
        have ne : n ≠ m := by
          intro same
          subst same
          rw [gone] at found
          cases found
        exact ⟨m :: others, shown, below, (other m others ne).trans found, rfl⟩
    · intro given
      obtain ⟨more, shown, below, found, rfl⟩ := given
      obtain ⟨m, others, rfl⟩ := List.exists_cons_of_ne_nil shown.1
      by_cases same : n = m
      · subst same
        exact .inl ⟨others, shown, below, (here others).symm.trans found, rfl⟩
      · exact .inr ⟨m :: others, shown, below, (other m others same).symm.trans found, rfl⟩

namespace Snapshot

variable {s u : Snapshot} {es : List Entry}

theorem Closed.of_forest (forest : Forest scope [] low es) : ((empty root).insertAll es).Closed := by
  intro above names some up present
  obtain ⟨e, found⟩ := Option.isSome_iff_exists.mp present
  obtain ⟨rest, rfl⟩ := up
  by_cases here : rest = []
  · subst here
    rwa [List.append_nil] at present
  · have met : ∃ k ∈ es, k.path = .ofNames (above ++ rest) := by
      by_contra missed
      rw [at?_insertAll_other] at found
      · cases found
      · intro k listed
        obtain ⟨n, more, _, path⟩ := forest.path_below listed
        exact ⟨_, path, fun same => missed ⟨k, listed, by rw [path, same]⟩⟩
    obtain ⟨k, listed, path⟩ := met
    obtain ⟨dir, member, up, _⟩ := forest.above listed some here (by simpa using path)
    rw [List.nil_append] at up
    rw [at?_insertAll_mem forest.apart member up]
    rfl

theorem scanInto_eq (p : Path) : s.scanInto d scope p =
    match d.entriesBelow scope s.root (s.root.join p) with
    | .ok es => .ok (s.absorb es)
    | .error e => .error (.ofRootFault (s.root.join p) e.fault) := rfl

theorem isDir_of_scan (scanned : scan d scope root = .ok u) : d.isDir root = true := by
  unfold scan at scanned
  split at scanned
  · cases scanned
  · rename_i found looked
    split at scanned
    · rename_i dir
      unfold Disk.isDir
      rw [looked]
      exact dir
    · cases scanned

theorem scan_forest (scanned : scan d scope root = .ok u) : root.bytes ≠ [] ∧
    ∃ es, d.entriesBelow scope root (root.join (.ofNames [])) = .ok es ∧
      Forest scope [] none es ∧ u = (empty root).insertAll es := by
  unfold scan at scanned
  split at scanned
  · cases scanned
  · rename_i found looked
    have nonempty := (Disk.lookup_ok looked).1
    split at scanned
    · rw [show Path.empty = .ofNames [] from rfl, scanInto_eq] at scanned
      cases entries : d.entriesBelow scope root (root.join (.ofNames [])) with
      | error e =>
        rw [show (empty root).root = root from rfl, entries] at scanned
        cases scanned
      | ok es =>
        rw [show (empty root).root = root from rfl, entries] at scanned
        refine ⟨nonempty, es, rfl, Disk.entriesBelow_forest nonempty entries, ?_⟩
        rw [← absorb_fst]
        exact (Except.ok.inj scanned).symm
    · cases scanned

-- What every snapshot keeps that scans and batches bring about.
structure Tracked (root : Path) (s : Snapshot) : Prop where
  nonempty : root.bytes ≠ []
  rooted : s.root = root
  keyed : s.Keyed
  named : s.Named
  closed : s.Closed

theorem tracked_scan (scanned : scan d scope root = .ok u) : u.Tracked root := by
  obtain ⟨nonempty, es, _, forest, rfl⟩ := scan_forest scanned
  refine ⟨nonempty, insertAll_root, (keyed_empty root).insertAll, (named_empty root).insertAll ?_,
    .of_forest forest⟩
  intro e met
  obtain ⟨n, more, _, path⟩ := forest.path_below met
  exact ⟨_, by simp, path⟩

end Snapshot

namespace Disk

-- What a scope shows at a path below the directory at `place`.
def view (d : Disk) (scope : Scope) (place : Place) (names : List Name) : Option Entry :=
  if scope.shows names then (d.at? (place ++ names)).map (.ofNode (.ofNames names)) else none

theorem view_eq_some_iff : d.view scope place names = some e ↔ scope.shows names = true ∧
    ∃ node, d.at? (place ++ names) = some node ∧ e = .ofNode (.ofNames names) node := by
  unfold view
  split
  · rename_i shown
    rw [Option.map_eq_some_iff]
    exact ⟨fun ⟨node, here, same⟩ => ⟨shown, node, here, same.symm⟩,
      fun ⟨_, node, here, same⟩ => ⟨node, here, same.symm⟩⟩
  · rename_i hidden
    simp [hidden]

section Plain

variable (plain : d.linkFree = true) (looked : d.lookup root true = .ok ⟨place, .dir t inside, budget⟩)
include plain looked

theorem stat_plain (below : names ≠ []) (follow : Bool) :
    (d.stat root (.ofNames names) follow).toOption =
      (d.at? (place ++ names)).map (.ofNode (.ofNames names)) := by
  have found := lookup_plain follow plain looked below
  unfold stat
  cases stood : d.lookup (root.join (.ofNames names)) follow with
  | error e =>
    rw [stood] at found
    rw [Option.map_eq_none_iff.mp found.symm]
    rfl
  | ok f =>
    rw [stood] at found
    obtain ⟨node, here, rfl⟩ := Option.map_eq_some_iff.mp found.symm
    rw [here]
    rfl

theorem entriesBelow_plain (scope : Scope) {u : Instant} {l : Listing}
    (dir : d.at? (place ++ names) = some (.dir u l)) :
    ∃ es, d.entriesBelow scope root (root.join (.ofNames names)) = .ok es ∧ ∀ e, e ∈ es ↔
      ∃ more, scope.ShowsBelow names more ∧
        ∃ node, d.at? (place ++ names ++ more) = some node ∧ e = .ofNode (.ofNames (names ++ more)) node := by
  have nonempty := (lookup_ok looked).1
  have based : d.lookup (root.join (.ofNames names)) true = .ok ⟨place ++ names, .dir u l, budget⟩ := by
    by_cases top : names = []
    · subst top
      rw [List.append_nil, at?_of_lookup looked] at dir
      cases dir
      rw [List.append_nil]
      exact lookup_join_empty looked
    · have found := lookup_plain true plain looked top
      rw [dir] at found
      cases stood : d.lookup (root.join (.ofNames names)) true with
      | error e =>
        rw [stood] at found
        cases found
      | ok f =>
        rw [stood] at found
        exact congrArg Except.ok (Option.some.inj found)
  have free : l.linkFree = true := d.linkFree_at? plain dir
  have sound : l.Ordered := d.ordered_at? dir
  unfold entriesBelow
  rw [based]
  refine ⟨_, rfl, fun e => ?_⟩
  have lower (more : List Name) : d.at? (place ++ names ++ more) = (Node.dir u l).at? more := by
    rw [at?_append, dir]
    rfl
  simp only [lower]
  exact Listing.mem_walk u nonempty free sound rfl

theorem entriesBelow_view {u : Instant} {l : Listing} (dir : d.at? (place ++ names) = some (.dir u l))
    (kept : Reconcile.excluded scope names = false) (deep : names = [] ∨ scope.recursive = true) :
    ∃ es, d.entriesBelow scope root (root.join (.ofNames names)) = .ok es ∧ Forest scope names none es ∧
      ∀ e, e ∈ es ↔ ∃ more, more ≠ [] ∧ d.view scope place (names ++ more) = some e := by
  obtain ⟨es, scanned, met⟩ := entriesBelow_plain plain looked scope dir
  refine ⟨es, scanned, entriesBelow_forest (lookup_ok looked).1 scanned, fun e => ?_⟩
  rw [met]
  constructor
  · intro given
    obtain ⟨more, shown, node, here, rfl⟩ := given
    refine ⟨more, shown.1, view_eq_some_iff.mpr ⟨?_, node, ?_, rfl⟩⟩
    · exact (Scope.showsBelow_iff kept deep shown.1).mp shown
    · rwa [← List.append_assoc]
  · intro given
    obtain ⟨more, some, seen⟩ := given
    obtain ⟨shown, node, here, rfl⟩ := view_eq_some_iff.mp seen
    refine ⟨more, (Scope.showsBelow_iff kept deep some).mpr shown, node, ?_, rfl⟩
    rwa [List.append_assoc]

theorem scan_plain : ∃ u, Snapshot.scan d scope root = .ok u ∧
    ∀ names, u.at? names = d.view scope place names := by
  have dir := at?_of_lookup looked
  rw [← List.append_nil place] at dir
  have kept : Reconcile.excluded scope [] = false := rfl
  obtain ⟨es, scanned, forest, met⟩ := entriesBelow_view plain looked dir kept (.inl rfl)
  refine ⟨(Snapshot.empty root).insertAll es, ?_, fun names => ?_⟩
  · have entries : d.entriesBelow scope (Snapshot.empty root).root
        ((Snapshot.empty root).root.join (.ofNames [])) = .ok es := scanned
    unfold Snapshot.scan
    simp only [looked, Node.isDir, if_true]
    rw [show Path.empty = .ofNames [] from rfl, Snapshot.scanInto_eq, entries]
    exact congrArg Except.ok Snapshot.absorb_fst
  · cases seen : d.view scope place names with
    | some e =>
      have path : e.path = .ofNames names := by
        obtain ⟨_, node, _, rfl⟩ := view_eq_some_iff.mp seen
        rfl
      have some : names ≠ [] := (Scope.shows_iff.mp (view_eq_some_iff.mp seen).1).1
      exact Snapshot.at?_insertAll_mem forest.apart ((met e).mpr ⟨names, some, seen⟩) path
    | none =>
      rw [Snapshot.at?_insertAll_other]
      · rfl
      · intro e listed
        obtain ⟨more, _, shown⟩ := (met e).mp listed
        obtain ⟨_, node, _, rfl⟩ := view_eq_some_iff.mp shown
        refine ⟨more, rfl, ?_⟩
        intro same
        subst same
        rw [List.nil_append, seen] at shown
        cases shown

end Plain

end Disk

end DirWatch
