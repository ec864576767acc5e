import DirWatch.Proofs.Scan.Content
import DirWatch.Proofs.Snapshot.Merge

namespace DirWatch.Reconcile

open Snapshot

variable {d : Disk} {scope : Scope} {s : Snapshot} {root : Path} {a p q above names front back : List Name}
  {n : Name} {e known fresh : Entry} {es : List Entry} {action : Action}

theorem look_path (seen : look d scope s names = some fresh) : fresh.path = .ofNames names := by
  unfold look Disk.stat at seen
  cases found : d.lookup (s.root.join (.ofNames names)) scope.followLinks with
  | error e =>
    rw [found] at seen
    cases seen
  | ok f =>
    rw [found] at seen
    cases seen
    rfl

theorem shows_below (below : names ≠ []) : scope.shows names = true ↔ excluded scope names = false ∧
    (!scope.recursive && decide (names.length > 1)) = false := by
  rw [Scope.shows_iff]
  have long := List.length_pos_of_ne_nil below
  cases scope.recursive with
  | true => simp [below]
  | false =>
    simp only [below, ne_eq, not_false_eq_true, true_and, Bool.false_eq_true, false_or, Bool.not_false,
      Bool.true_and, decide_eq_false_iff_not]
    exact and_congr_right fun _ => by omega

theorem apply_shown (shown : scope.shows p = true) : apply d scope s action p =
    match action with
    | .added | .renamedTo => add d scope s p
    | .removed | .renamedFrom => Reconcile.remove d scope s p
    | .modified => modify d scope s p := by
  obtain ⟨kept, near⟩ := (shows_below (Scope.shows_iff.mp shown).1).mp shown
  cases action <;> simp [apply, near, kept]

theorem apply_hidden (below : p ≠ []) (hidden : scope.shows p = false) :
    apply d scope s action p = (s, []) := by
  unfold apply
  split
  · rfl
  · rename_i near
    split
    · rfl
    · rename_i kept
      have shown := (shows_below below).mpr ⟨by simpa using kept, by simpa using near⟩
      rw [hidden] at shown
      cases shown

-- What a new directory brings along, as far as it can be scanned.
def contents (d : Disk) (scope : Scope) (root : Path) (fresh : Entry) : List Entry :=
  if fresh.isDirectory && scope.recursive then
    match d.entriesBelow scope root (root.join fresh.path) with
    | .ok es => es
    | .error _ => []
  else []

def grown (d : Disk) (scope : Scope) (root : Path) (fresh : Entry) : List Entry :=
  fresh :: contents d scope root fresh

theorem contents_forest (nonempty : root.bytes ≠ []) (path : fresh.path = .ofNames a) :
    Forest scope a none (contents d scope root fresh) := by
  unfold contents
  split
  · split
    · rename_i es scanned
      rw [path] at scanned
      exact Disk.entriesBelow_forest nonempty scanned
    · exact .empty
  · exact .empty

theorem contents_dir (some : contents d scope root fresh ≠ []) :
    fresh.isDirectory = true ∧ scope.recursive = true := by
  unfold contents at some
  split at some
  · rename_i both
    simpa using both
  · exact absurd rfl some

section Grown

variable (nonempty : root.bytes ≠ []) (path : fresh.path = .ofNames a)
include nonempty path

theorem grown_path (met : e ∈ grown d scope root fresh) : ∃ more, e.path = .ofNames (a ++ more) := by
  rcases List.mem_cons.mp met with rfl | met
  · exact ⟨[], by rw [path, List.append_nil]⟩
  · obtain ⟨n, more, _, below⟩ := (contents_forest nonempty path).path_below met
    exact ⟨n :: more, below⟩

theorem grown_apart : Apart (grown d scope root fresh) := by
  have forest : Forest scope a none (contents d scope root fresh) := contents_forest nonempty path
  refine List.pairwise_cons.mpr ⟨fun e met same => ?_, forest.apart⟩
  obtain ⟨n, more, _, below⟩ := forest.path_below met
  rw [path, below, Path.components_ofNames_inj] at same
  simp at same

theorem grown_above (met : e ∈ grown d scope root fresh) (more : back ≠ [])
    (below : e.path = .ofNames (a ++ front ++ back)) : ∃ dir ∈ grown d scope root fresh,
      dir.path = .ofNames (a ++ front) ∧ dir.isDirectory = true := by
  rcases List.mem_cons.mp met with rfl | met
  · rw [path] at below
    have short := Path.ofNames_injective below
    simp [more] at short
  · by_cases top : front = []
    · subst top
      have some : contents d scope root fresh ≠ [] := List.ne_nil_of_mem met
      exact ⟨fresh, List.mem_cons_self, by rw [path, List.append_nil], (contents_dir some).1⟩
    · obtain ⟨dir, listed, upper⟩ := (contents_forest nonempty path).above met top more below
      exact ⟨dir, List.mem_cons_of_mem _ listed, upper⟩

theorem at?_grown_outside (outside : ¬a <+: q) :
    (s.insertAll (grown d scope root fresh)).at? q = s.at? q := by
  apply at?_insertAll_other
  intro e met
  obtain ⟨more, below⟩ := grown_path nonempty path met
  exact ⟨_, below, fun same => outside (same ▸ List.prefix_append a more)⟩

end Grown

theorem filterMap_get? (apart : Apart es) : (es.map Entry.path).filterMap (s.insertAll es).get? = es := by
  have each : ∀ e ∈ es, (s.insertAll es).get? e.path = some e :=
    fun e met => get?_insertAll_mem apart met rfl
  rw [List.filterMap_map]
  calc es.filterMap ((s.insertAll es).get? ∘ Entry.path) = es.filterMap some :=
        List.filterMap_congr each
    _ = es := List.filterMap_some

theorem insertNew_eq (nonempty : s.root.bytes ≠ []) (path : fresh.path = .ofNames a)
    (bare : ∀ q, a <+: q → s.at? q = none) : insertNew d scope s fresh =
      (s.insertAll (grown d scope s.root fresh), (grown d scope s.root fresh).map .added) := by
  have apart : Apart (grown d scope s.root fresh) := grown_apart nonempty path
  unfold insertNew
  cases deep : fresh.isDirectory && scope.recursive with
  | false => simp [grown, contents, deep, insertAll, Snapshot.insertAll]
  | true =>
    simp only [if_true, scanInto_eq]
    have same : (s.insert fresh).root = s.root := rfl
    rw [same]
    cases scanned : d.entriesBelow scope s.root (s.root.join fresh.path) with
    | error e => simp [grown, contents, deep, scanned, Snapshot.insertAll]
    | ok es =>
      have shape : grown d scope s.root fresh = fresh :: es := by simp [grown, contents, deep, scanned]
      rw [shape] at apart ⊢
      obtain ⟨alone, tail⟩ := List.pairwise_cons.mp apart
      have new : (es.filter fun e => !(s.insert fresh).contains e.path) = es := by
        apply List.filter_eq_self.mpr
        intro e met
        have listed : e ∈ grown d scope s.root fresh := shape ▸ List.mem_cons_of_mem _ met
        obtain ⟨more, below⟩ := grown_path nonempty path listed
        have absent : (s.insert fresh).get? e.path = none := by
          rw [get?_insert_other (alone e met).symm, below]
          exact bare _ (List.prefix_append a more)
        simp [contains, absent]
      have taken := absorb_snd (s := s.insert fresh) tail
      rw [new] at taken
      have all : ((s.insert fresh).absorb es).1 = (s.insert fresh).insertAll es := absorb_fst
      simp only [taken, all, filterMap_get? tail]
      rfl

theorem replace_eq (nonempty : s.root.bytes ≠ []) (path : fresh.path = .ofNames p) :
    Reconcile.replace d scope s fresh =
      ((s.removeSubtree (.ofNames p)).insertAll (grown d scope s.root fresh),
        (s.subtree (.ofNames p)).map .removed ++ (grown d scope s.root fresh).map .added) := by
  have fill : insertNew d scope (s.removeSubtree (.ofNames p)) fresh =
      ((s.removeSubtree (.ofNames p)).insertAll (grown d scope s.root fresh),
        (grown d scope s.root fresh).map .added) :=
    insertNew_eq nonempty path fun q below => at?_removeSubtree_inside below
  unfold Reconcile.replace dropSubtree
  rw [path]
  simp only [fill]

theorem heads_concat : heads (names ++ [n]) = heads names ++ [names ++ [n]] := by
  induction names with
  | nil => rfl
  | cons m rest ih => simp [heads, ih]

-- The highest missing directory on the way down to a directory, that one included.
def outermost (s : Snapshot) (names : List Name) : Option (List Name) :=
  ((heads names).reverse.takeWhile fun head => !s.contains (.ofNames head)).getLast?

theorem outermost_concat : outermost s (names ++ [n]) =
    if s.contains (.ofNames (names ++ [n])) then none
    else some ((outermost s names).getD (names ++ [n])) := by
  unfold outermost
  rw [heads_concat, List.reverse_append, List.reverse_singleton, List.singleton_append]
  cases known : s.contains (.ofNames (names ++ [n])) with
  | true => simp [known]
  | false =>
    simp only [List.takeWhile_cons, known, Bool.not_false, if_true, Bool.false_eq_true, if_false]
    rw [List.getLast?_cons]

theorem outermost_spec (closed : s.Closed) :
    match outermost s names with
    | some a => a ≠ [] ∧ a <+: names ∧ s.at? a = none ∧
        ∀ above, above ≠ [] → above <+: a → above ≠ a → (s.at? above).isSome = true
    | none => ∀ above, above ≠ [] → above <+: names → (s.at? above).isSome = true := by
  induction names using List.reverseRecOn with
  | nil =>
    intro above some up
    exact absurd (List.prefix_nil.mp up) some
  | append_singleton names n ih =>
    rw [outermost_concat]
    cases known : s.contains (.ofNames (names ++ [n])) with
    | true =>
      intro above some up
      exact closed above _ some up known
    | false =>
      cases upper : outermost s names with
      | some a =>
        rw [upper] at ih
        obtain ⟨some, up, absent, rest⟩ := ih
        exact ⟨some, up.trans (List.prefix_append names [n]), absent, rest⟩
      | none =>
        rw [upper] at ih
        refine ⟨by simp, List.prefix_refl _, contains_eq_false_iff.mp known, fun above some up proper => ?_⟩
        rcases List.prefix_concat_iff.mp up with same | up
        · exact absurd same proper
        · exact ih above some up

theorem missingAncestor_spec (closed : s.Closed) :
    match missingAncestor s names with
    | some a => a ≠ [] ∧ a <+: names ∧ a ≠ names ∧ s.at? a = none ∧
        ∀ above, above ≠ [] → above <+: a → above ≠ a → (s.at? above).isSome = true
    | none => ∀ above, above ≠ [] → above <+: names → above ≠ names → (s.at? above).isSome = true := by
  have upper := @outermost_spec s names.dropLast closed
  change match outermost s names.dropLast with | some a => _ | none => _
  rcases List.eq_nil_or_concat' names with rfl | ⟨front, n, rfl⟩
  · intro above some up
    exact absurd (List.prefix_nil.mp up) some
  · rw [List.dropLast_concat] at upper ⊢
    cases missing : outermost s front with
    | some a =>
      rw [missing] at upper
      obtain ⟨some, up, gone, rest⟩ := upper
      refine ⟨some, up.trans (List.prefix_append _ _), ?_, gone, rest⟩
      rintro rfl
      have short := up.length_le
      rw [List.length_append, List.length_singleton] at short
      omega
    | none =>
      rw [missing] at upper
      intro above some up proper
      exact upper above some ((List.prefix_concat_iff.mp up).resolve_left proper)

inductive Effect (d : Disk) (scope : Scope) (s : Snapshot) : Step → Prop
  | idle : Effect d scope s (s, [])
  | grow {a : List Name} {fresh : Entry} : scope.shows a = true → look d scope s a = some fresh →
      s.at? a = none →
      (∀ above, above ≠ [] → above <+: a → above ≠ a → (s.at? above).isSome = true) →
      Effect d scope s
        (s.insertAll (grown d scope s.root fresh), (grown d scope s.root fresh).map .added)
  | drop {p : List Name} {known : Entry} : scope.shows p = true → s.at? p = some known →
      look d scope s p = none → Effect d scope s (dropSubtree s (.ofNames p))
  | replace {p : List Name} {known fresh : Entry} : scope.shows p = true → s.at? p = some known →
      look d scope s p = some fresh → known.isDirectory ≠ fresh.isDirectory →
      Effect d scope s ((s.removeSubtree (.ofNames p)).insertAll (grown d scope s.root fresh),
        (s.subtree (.ofNames p)).map .removed ++ (grown d scope s.root fresh).map .added)
  | update {p : List Name} {known fresh : Entry} : scope.shows p = true → s.at? p = some known →
      look d scope s p = some fresh → known.isDirectory = fresh.isDirectory →
      known.differs fresh = true → Effect d scope s (s.insert fresh, [.modified fresh])
  | touch {p : List Name} {known fresh : Entry} : scope.shows p = true → s.at? p = some known →
      look d scope s p = some fresh → known.isDirectory = true → fresh.isDirectory = true →
      Effect d scope s (s.insert fresh, [])
  | refresh {p : List Name} {known fresh : Entry} : scope.shows p = true → s.at? p = some known →
      look d scope s p = some fresh → known.isDirectory = true → fresh.isDirectory = true →
      scope.recursive = true → Effect d scope s (refresh d scope (s.insert fresh) (.ofNames p))

section Outcomes

variable (nonempty : s.root.bytes ≠ [])
include nonempty

theorem insertNew_effect (closed : s.Closed) (shown : scope.shows a = true)
    (seen : look d scope s a = some fresh) (absent : s.at? a = none)
    (upper : ∀ above, above ≠ [] → above <+: a → above ≠ a → (s.at? above).isSome = true) :
    Effect d scope s (insertNew d scope s fresh) := by
  have some := (Scope.shows_iff.mp shown).1
  rw [insertNew_eq nonempty (look_path seen) fun q below => closed.none_below some absent below]
  exact .grow shown seen absent upper

theorem replace_effect (shown : scope.shows names = true) (tracked : s.at? names = some known)
    (seen : look d scope s names = some fresh) (kinds : known.isDirectory ≠ fresh.isDirectory) :
    Effect d scope s (Reconcile.replace d scope s fresh) := by
  rw [replace_eq nonempty (look_path seen)]
  exact .replace shown tracked seen kinds

theorem add_effect (closed : s.Closed) (shown : scope.shows names = true) :
    Effect d scope s (add d scope s names) := by
  unfold add
  split
  · exact .idle
  · rename_i fresh seen
    split
    · rename_i absent
      have upper := @missingAncestor_spec s names closed
      cases missing : missingAncestor s names with
      | some ancestor =>
        rw [missing] at upper
        obtain ⟨some, above, _, gone, rest⟩ := upper
        dsimp only
        split
        · rename_i top found
          exact insertNew_effect nonempty closed (Scope.shows_above shown some above) found gone rest
        · exact .idle
      | none =>
        rw [missing] at upper
        exact insertNew_effect nonempty closed shown seen absent upper
    · rename_i known tracked
      split
      · rename_i kinds
        exact replace_effect nonempty shown tracked seen (by simpa using kinds)
      · rename_i kinds
        split
        · rename_i changed
          exact .update shown tracked seen (by simpa using kinds) changed
        · exact .idle

theorem remove_effect (shown : scope.shows names = true) :
    Effect d scope s (Reconcile.remove d scope s names) := by
  unfold Reconcile.remove
  split
  · exact .idle
  · rename_i known tracked
    split
    · rename_i gone
      exact .drop shown tracked gone
    · rename_i fresh seen
      split
      · rename_i kinds
        exact replace_effect nonempty shown tracked seen (by simpa using kinds)
      · rename_i kinds
        have kinds : known.isDirectory = fresh.isDirectory := by simpa using kinds
        split
        · rename_i dir
          split
          · rename_i deep
            exact .refresh shown tracked seen (kinds.trans dir) dir deep
          · exact .touch shown tracked seen (kinds.trans dir) dir
        · split
          · rename_i changed
            exact .update shown tracked seen kinds changed
          · exact .idle

theorem modify_effect (shown : scope.shows names = true) : Effect d scope s (modify d scope s names) := by
  unfold modify
  split
  · exact .idle
  · rename_i known tracked
    split
    · exact .idle
    · rename_i fresh seen
      split
      · rename_i kinds
        exact replace_effect nonempty shown tracked seen (by simpa using kinds)
      · rename_i kinds
        have kinds : known.isDirectory = fresh.isDirectory := by simpa using kinds
        split
        · rename_i changed
          exact .update shown tracked seen kinds changed
        · split
          · rename_i dir
            exact .touch shown tracked seen (kinds.trans dir) dir
          · exact .idle

theorem apply_effect (closed : s.Closed) (below : names ≠ []) (action : Action) :
    Effect d scope s (apply d scope s action names) := by
  cases shown : scope.shows names with
  | false =>
    rw [apply_hidden below shown]
    exact .idle
  | true =>
    rw [apply_shown shown]
    cases action with
    | added => exact add_effect nonempty closed shown
    | renamedTo => exact add_effect nonempty closed shown
    | removed => exact remove_effect nonempty shown
    | renamedFrom => exact remove_effect nonempty shown
    | modified => exact modify_effect nonempty shown

end Outcomes

end DirWatch.Reconcile
