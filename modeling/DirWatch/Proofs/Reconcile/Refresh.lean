import DirWatch.Proofs.Reconcile.Effect

namespace DirWatch

namespace Snapshot

variable {s : Snapshot} {root : Path} {e : Entry} {es : List Entry}

theorem mem_entries_insertAll (apart : Apart es) : e ∈ ((empty root).insertAll es).entries ↔ e ∈ es := by
  rw [(keyed_empty root).insertAll.mem_entries_iff]
  constructor
  · intro found
    by_contra missed
    have absent : ∀ k ∈ es, e.path.components ≠ k.path.components := by
      intro k listed same
      rw [get?_insertAll_mem apart listed same] at found
      exact missed (Option.some.inj found ▸ listed)
    rw [get?_insertAll_other absent, get?_empty] at found
    cases found
  · intro listed
    exact get?_insertAll_mem apart listed rfl

end Snapshot

namespace Reconcile

open Snapshot

variable {d : Disk} {scope : Scope} {s : Snapshot} {p q above names : List Name} {e : Entry} {es : List Entry}

-- The two lists that a refresh compares, once the scan has brought `es`.
def beforehand (s : Snapshot) (p : List Name) : List Entry :=
  ((Snapshot.empty s.root).insertAll (s.below (.ofNames p))).entries

def afterwards (s : Snapshot) (es : List Entry) : List Entry := ((Snapshot.empty s.root).insertAll es).entries

def corrections (s : Snapshot) (p : List Name) (es : List Entry) : List Change :=
  merge (beforehand s p) (afterwards s es)

theorem refresh_ok (scanned : d.entriesBelow scope s.root (s.root.join (.ofNames p)) = .ok es) :
    refresh d scope s (.ofNames p) = (s.replayAll (corrections s p es), corrections s p es) := by
  unfold refresh
  rw [scanInto_eq, show (Snapshot.empty s.root).root = s.root from rfl, scanned]
  simp only [absorb_fst]
  rfl

theorem refresh_error {error : LookupError}
    (scanned : d.entriesBelow scope s.root (s.root.join (.ofNames p)) = .error error) :
    refresh d scope s (.ofNames p) = (s, []) := by
  unfold refresh
  rw [scanInto_eq, show (Snapshot.empty s.root).root = s.root from rfl, scanned]

theorem sorted_beforehand : Sorted (beforehand s p) := (keyed_empty _).insertAll.sorted_entries

theorem sorted_afterwards : Sorted (afterwards s es) := (keyed_empty _).insertAll.sorted_entries

section Spec

variable (keyed : s.Keyed) (forest : Forest scope p none es)

include keyed in
theorem mem_beforehand : e ∈ beforehand s p ↔ s.get? e.path = some e ∧
    (Path.ofNames p).components <+: e.path.components ∧ (Path.ofNames p).components ≠ e.path.components := by
  unfold beforehand
  rw [mem_entries_insertAll keyed.sorted_below.apart, keyed.mem_below_iff]

include forest in
theorem mem_afterwards : e ∈ afterwards s es ↔ e ∈ es := mem_entries_insertAll forest.apart

include keyed forest in
theorem corrections_holds : s.Holds (beforehand s p) (afterwards s es) := by
  constructor
  · intro o listed
    exact ⟨o, ((mem_beforehand keyed).mp listed).1, o.differs_self⟩
  · intro n listed only
    obtain ⟨m, more, _, path⟩ := forest.path_below ((mem_afterwards forest).mp listed)
    by_contra present
    obtain ⟨k, found⟩ := Option.ne_none_iff_exists'.mp present
    have same := keyed _ k found
    refine only k ((mem_beforehand keyed).mpr ⟨(get?_congr same).trans found, ?_, ?_⟩) same
    · rw [same, path]
      simp
    · rw [same, path]
      simp

include keyed forest in
theorem at?_refresh_outside (outside : ¬(p <+: q ∧ p ≠ q)) :
    (s.replayAll (corrections s p es)).at? q = s.at? q := by
  apply get?_merge_outside
  · intro o listed same
    obtain ⟨_, below, proper⟩ := (mem_beforehand keyed).mp listed
    rw [← same] at below proper
    refine outside ⟨prefix_of_components below, fun here => proper (by rw [here])⟩
  · intro n listed same
    obtain ⟨m, more, _, path⟩ := forest.path_below ((mem_afterwards forest).mp listed)
    rw [path, Path.components_ofNames_inj] at same
    exact outside ⟨same ▸ List.prefix_append _ _, fun here => by simp [← here] at same⟩

include keyed forest in
theorem at?_refresh_inside (below : p <+: q) (proper : p ≠ q) :
    (∃ n ∈ es, n.path = .ofNames q ∧
      ((s.replayAll (corrections s p es)).at? q = some n ∨
        (s.replayAll (corrections s p es)).at? q = s.at? q ∧ ∃ o, s.at? q = some o ∧ o.differs n = false)) ∨
    (∀ n ∈ es, n.path ≠ .ofNames q) ∧ (s.replayAll (corrections s p es)).at? q = none := by
  have inside : (Path.ofNames p).components <+: (Path.ofNames q).components := by
    rw [Path.components_ofNames, Path.components_ofNames]
    exact below.map _
  have strict : (Path.ofNames p).components ≠ (Path.ofNames q).components :=
    fun same => proper (Path.components_ofNames_inj.mp same)
  by_cases seen : ∃ n ∈ es, n.path = .ofNames q
  · left
    obtain ⟨n, listed, path⟩ := seen
    refine ⟨n, listed, path, ?_⟩
    have here : (Path.ofNames q).components = n.path.components := by rw [path]
    rcases get?_merge_new sorted_beforehand sorted_afterwards ((mem_afterwards forest).mpr listed) here with
      new | ⟨kept, o, old, same, alike⟩
    · exact .inl new
    · refine .inr ⟨kept, o, ?_, alike⟩
      exact (get?_congr same).trans ((mem_beforehand keyed).mp old).1
  · right
    have absent : ∀ n ∈ es, n.path ≠ .ofNames q := fun n listed path => seen ⟨n, listed, path⟩
    have new : ∀ n ∈ afterwards s es, (Path.ofNames q).components ≠ n.path.components := by
      intro n listed same
      obtain ⟨m, more, _, path⟩ := forest.path_below ((mem_afterwards forest).mp listed)
      rw [path, Path.components_ofNames_inj] at same
      exact absent n ((mem_afterwards forest).mp listed) (same ▸ path)
    refine ⟨absent, ?_⟩
    cases known : s.at? q with
    | some o =>
      have same := keyed _ o known
      refine get?_merge_old ⟨o, ?_, same.symm⟩ new
      exact (mem_beforehand keyed).mpr ⟨(get?_congr same).trans known, same ▸ inside, same ▸ strict⟩
    | none =>
      rw [← known]
      refine get?_merge_outside (fun o listed same => ?_) new
      have present := ((mem_beforehand keyed).mp listed).1
      rw [← get?_congr same] at present
      exact absurd (known.symm.trans present) (by simp)

include keyed forest in
theorem named_refresh (named : s.Named) : (s.replayAll (corrections s p es)).Named := by
  intro path e found
  by_cases old : ∃ o ∈ beforehand s p, path.components = o.path.components
  · obtain ⟨o, listed, same⟩ := old
    rw [same]
    exact named _ o ((mem_beforehand keyed).mp listed).1
  · by_cases new : ∃ n ∈ afterwards s es, path.components = n.path.components
    · obtain ⟨n, listed, same⟩ := new
      obtain ⟨m, more, _, path⟩ := forest.path_below ((mem_afterwards forest).mp listed)
      exact ⟨p ++ m :: more, by simp, by rw [same, path, Path.components_ofNames]⟩
    · refine named path e ?_
      rw [← found]
      refine (get?_merge_outside (fun o listed same => ?_) fun n listed same => ?_).symm
      · exact old ⟨o, listed, same⟩
      · exact new ⟨n, listed, same⟩

include keyed forest in
theorem present_refresh (below : p <+: q) (proper : p ≠ q) :
    ((s.replayAll (corrections s p es)).at? q).isSome = true ↔ ∃ n ∈ es, n.path = .ofNames q := by
  rcases at?_refresh_inside keyed forest below proper with ⟨n, listed, path, stands⟩ | ⟨absent, gone⟩
  · refine ⟨fun _ => ⟨n, listed, path⟩, fun _ => ?_⟩
    rcases stands with new | ⟨kept, o, known, _⟩
    · rw [new]
      rfl
    · rw [kept, known]
      rfl
  · rw [gone]
    exact ⟨fun present => absurd present (by simp), fun ⟨n, listed, path⟩ => absurd path (absent n listed)⟩

include keyed forest in
theorem closed_refresh (closed : s.Closed) (known : (s.at? p).isSome = true) :
    (s.replayAll (corrections s p es)).Closed := by
  intro above q some up present
  by_cases below : p <+: q ∧ p ≠ q
  · by_cases lower : p <+: above ∧ p ≠ above
    · obtain ⟨n, listed, path⟩ := (present_refresh keyed forest below.1 below.2).mp present
      refine (present_refresh keyed forest lower.1 lower.2).mpr ?_
      obtain ⟨front, rfl⟩ := lower.1
      obtain ⟨back, rfl⟩ := up
      by_cases here : back = []
      · subst here
        exact ⟨n, listed, by rw [path, List.append_nil]⟩
      · have deeper : front ≠ [] := fun top => lower.2 (by rw [top, List.append_nil])
        obtain ⟨dir, member, upper, _⟩ := forest.above listed deeper here path
        exact ⟨dir, member, upper⟩
    · rw [at?_refresh_outside keyed forest lower]
      rcases List.prefix_or_prefix_of_prefix up below.1 with upper | deeper
      · exact closed above p some upper known
      · have same : p = above := by
          by_contra other
          exact lower ⟨deeper, other⟩
        exact same ▸ known
  · have outside : ¬(p <+: above ∧ p ≠ above) := by
      intro given
      obtain ⟨upper, proper⟩ := given
      refine below ⟨upper.trans up, ?_⟩
      intro same
      subst same
      exact proper (upper.eq_of_length_le up.length_le)
    rw [at?_refresh_outside keyed forest below] at present
    rw [at?_refresh_outside keyed forest outside]
    exact closed above q some up present

include keyed forest in
theorem accepts_corrections : s.Accepts (corrections s p es) :=
  accepts_merge sorted_beforehand sorted_afterwards (corrections_holds keyed forest)

end Spec

end Reconcile

end DirWatch
