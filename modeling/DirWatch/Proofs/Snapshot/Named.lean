import DirWatch.Proofs.Snapshot.Replay

namespace DirWatch.Snapshot

variable {s t : Snapshot} {p : Path} {e k : Entry} {es : List Entry} {a b names : List Name}

def at? (s : Snapshot) (names : List Name) : Option Entry := s.get? (.ofNames names)

def Named (s : Snapshot) : Prop :=
  ∀ p e, s.get? p = some e → ∃ names, names ≠ [] ∧ p.components = names.map .name

def Closed (s : Snapshot) : Prop :=
  ∀ above names, above ≠ [] → above <+: names →
    (s.at? names).isSome = true → (s.at? above).isSome = true

theorem at?_of_components (parts : p.components = names.map .name) : s.get? p = s.at? names :=
  get?_congr (parts.trans (Path.components_ofNames names).symm)

@[simp]
theorem at?_empty (root : Path) : (empty root).at? names = none := rfl

theorem Named.at?_nil (h : s.Named) : s.at? [] = none := by
  by_contra present
  obtain ⟨e, found⟩ := Option.ne_none_iff_exists'.mp present
  obtain ⟨names, some, parts⟩ := h _ e found
  rw [Path.components_ofNames] at parts
  exact some (List.map_eq_nil_iff.mp parts.symm)

theorem Named.ne_nil (h : s.Named) (found : s.at? names = some e) : names ≠ [] := by
  intro same
  subst same
  rw [h.at?_nil] at found
  cases found

theorem matches_of_at? (hs : s.Named) (ht : t.Named)
    (same : ∀ names, Entry.Matches (s.at? names) (t.at? names)) : s.Matches t := by
  intro p
  cases left : s.get? p with
  | some e =>
    obtain ⟨names, _, parts⟩ := hs p e left
    rw [← left, at?_of_components parts, at?_of_components parts]
    exact same names
  | none =>
    cases right : t.get? p with
    | none => exact .rfl
    | some e =>
      obtain ⟨names, _, parts⟩ := ht p e right
      rw [← left, ← right, at?_of_components parts, at?_of_components parts]
      exact same names

theorem named_empty (root : Path) : (empty root).Named := by
  intro p e found
  cases found

theorem Named.insert (h : s.Named) (some : names ≠ []) (path : e.path = .ofNames names) :
    (s.insert e).Named := by
  intro p k found
  by_cases same : p.components = e.path.components
  · exact ⟨names, some, by rw [same, path, Path.components_ofNames]⟩
  · rw [get?_insert_other same] at found
    exact h p k found

theorem Named.insertAll (h : s.Named)
    (paths : ∀ e ∈ es, ∃ names, names ≠ [] ∧ e.path = .ofNames names) : (s.insertAll es).Named := by
  induction es generalizing s with
  | nil => exact h
  | cons e rest ih =>
    obtain ⟨names, some, path⟩ := paths e List.mem_cons_self
    exact ih (h.insert some path) fun k found => paths k (List.mem_cons_of_mem _ found)

theorem Named.remove (h : s.Named) (p : Path) : (s.remove p).Named :=
  fun q e found => h q e (get?_of_remove found)

theorem Named.removeSubtree (h : s.Named) (p : Path) : (s.removeSubtree p).Named :=
  fun q e found => h q e (get?_of_removeSubtree found)

theorem at?_insert_self (path : e.path = .ofNames names) : (s.insert e).at? names = some e := by
  unfold at?
  rw [← path]
  exact get?_insert_self

theorem at?_insert_other (path : e.path = .ofNames a) (other : b ≠ a) :
    (s.insert e).at? b = s.at? b := by
  apply get?_insert_other
  rw [path]
  exact fun same => other (Path.components_ofNames_inj.mp same)

theorem at?_insertAll_mem (apart : Apart es) (found : e ∈ es) (path : e.path = .ofNames names) :
    (s.insertAll es).at? names = some e :=
  get?_insertAll_mem apart found (by rw [path])

theorem at?_insertAll_other (other : ∀ e ∈ es, ∃ a, e.path = .ofNames a ∧ names ≠ a) :
    (s.insertAll es).at? names = s.at? names := by
  apply get?_insertAll_other
  intro e found same
  obtain ⟨a, path, ne⟩ := other e found
  rw [path] at same
  exact ne (Path.components_ofNames_inj.mp same)

theorem at?_insertAll_cases (apart : Apart es) (paths : ∀ e ∈ es, ∃ a, e.path = .ofNames a)
    (found : (s.insertAll es).at? names = some e) :
    (e ∈ es ∧ e.path = .ofNames names) ∨ s.at? names = some e := by
  by_cases met : ∃ k ∈ es, k.path = .ofNames names
  · obtain ⟨k, met, path⟩ := met
    rw [at?_insertAll_mem apart met path] at found
    cases found
    exact .inl ⟨met, path⟩
  · rw [at?_insertAll_other] at found
    · exact .inr found
    · intro k listed
      obtain ⟨a, path⟩ := paths k listed
      exact ⟨a, path, fun same => met ⟨k, listed, same ▸ path⟩⟩

theorem at?_removeSubtree_inside (inside : a <+: names) :
    (s.removeSubtree (.ofNames a)).at? names = none := by
  apply get?_removeSubtree_inside
  rw [Path.components_ofNames, Path.components_ofNames]
  exact inside.map _

theorem prefix_of_components
    (inside : (Path.ofNames a).components <+: (Path.ofNames names).components) : a <+: names := by
  rw [Path.components_ofNames, Path.components_ofNames] at inside
  exact (List.prefix_map_iff_of_injective Component.name_injective).mp inside

theorem Named.mem_below_iff (h : s.Named) (keyed : s.Keyed) :
    e ∈ s.below (.ofNames a) ↔ ∃ more, more ≠ [] ∧ s.at? (a ++ more) = some e := by
  rw [keyed.mem_below_iff]
  constructor
  · intro given
    obtain ⟨there, inside, proper⟩ := given
    obtain ⟨names, _, parts⟩ := h e.path e there
    rw [at?_of_components parts] at there
    rw [parts, ← Path.components_ofNames] at inside proper
    obtain ⟨more, rfl⟩ := prefix_of_components inside
    exact ⟨more, fun none => proper (by rw [none, List.append_nil]), there⟩
  · intro given
    obtain ⟨more, some, there⟩ := given
    have parts : e.path.components = (Path.ofNames (a ++ more)).components := keyed _ e there
    refine ⟨(get?_congr parts).trans there, ?_, ?_⟩
    · simp [parts]
    · simp [parts, some]

theorem at?_removeSubtree_outside (outside : ¬a <+: names) :
    (s.removeSubtree (.ofNames a)).at? names = s.at? names :=
  get?_removeSubtree_outside fun inside => outside (prefix_of_components inside)

theorem Closed.none_below (h : s.Closed) (some : a ≠ []) (absent : s.at? a = none) (below : a <+: names) :
    s.at? names = none := by
  by_contra present
  have above := h a names some below (Option.isSome_iff_ne_none.mpr present)
  rw [absent] at above
  cases above

end DirWatch.Snapshot
