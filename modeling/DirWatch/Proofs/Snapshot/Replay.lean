import DirWatch.Proofs.Snapshot.Keyed
import DirWatch.Snapshot.Diff

namespace DirWatch

def Change.Fits (s : Snapshot) (c : Change) : Prop :=
  match c.kind with
  | .added => s.get? c.path = none
  | .removed => ∃ e, s.get? c.path = some e ∧ e.differs c.entry = false
  | .modified => ∃ e, s.get? c.path = some e ∧ e.isDirectory = false ∧ c.entry.isDirectory = false ∧
      (e.written ≠ c.entry.written ∨ e.size ≠ c.entry.size)

namespace Snapshot

variable {r s t u : Snapshot} {p q dir : Path} {e k : Entry} {es : List Entry} {c : Change}
  {cs ds : List Change}

-- Each change fits the snapshot that those before it left.
def Accepts : Snapshot → List Change → Prop
  | _, [] => True
  | s, c :: rest => c.Fits s ∧ (s.replay c).Accepts rest

theorem replayAll_cons : s.replayAll (c :: cs) = (s.replay c).replayAll cs := rfl

theorem replayAll_append : s.replayAll (cs ++ ds) = (s.replayAll cs).replayAll ds := List.foldl_append

theorem replayAll_added : s.replayAll (es.map .added) = s.insertAll es := List.foldl_map

theorem accepts_append : s.Accepts (cs ++ ds) ↔ s.Accepts cs ∧ (s.replayAll cs).Accepts ds := by
  induction cs generalizing s with
  | nil => simp [Accepts, replayAll]
  | cons c rest ih =>
    rw [List.cons_append, Accepts, Accepts, ih, replayAll_cons, and_assoc]

theorem Keyed.replay (h : s.Keyed) : (s.replay c).Keyed := by
  unfold Snapshot.replay
  split
  · exact h.insert
  · exact h.insert
  · exact h.remove

theorem Keyed.replayAll (h : s.Keyed) : (s.replayAll cs).Keyed := by
  induction cs generalizing s with
  | nil => exact h
  | cons c rest ih => exact ih h.replay

theorem replay_root : (s.replay c).root = s.root := by
  unfold replay
  split <;> rfl

@[simp]
theorem replayAll_root : (s.replayAll cs).root = s.root := by
  induction cs generalizing s with
  | nil => rfl
  | cons c rest ih => rw [replayAll_cons, ih, replay_root]

theorem get?_replay_other (other : p.components ≠ c.path.components) :
    (s.replay c).get? p = s.get? p := by
  unfold replay
  split
  · exact get?_insert_other other
  · exact get?_insert_other other
  · exact get?_remove_other other

theorem get?_replayAll_other (other : ∀ c ∈ cs, p.components ≠ c.path.components) :
    (s.replayAll cs).get? p = s.get? p := by
  induction cs generalizing s with
  | nil => rfl
  | cons c rest ih =>
    rw [replayAll_cons, ih fun d found => other d (List.mem_cons_of_mem _ found)]
    exact get?_replay_other (other c List.mem_cons_self)

theorem Matches.insert (h : r.Matches s) (e : Entry) : (r.insert e).Matches (s.insert e) := by
  intro p
  by_cases same : p.components = e.path.components
  · rw [get?_insert_same same, get?_insert_same same]
    exact .rfl
  · rw [get?_insert_other same, get?_insert_other same]
    exact h p

theorem Matches.remove (h : r.Matches s) (q : Path) : (r.remove q).Matches (s.remove q) := by
  intro p
  by_cases same : p.components = q.components
  · rw [get?_remove_same same, get?_remove_same same]
    exact .rfl
  · rw [get?_remove_other same, get?_remove_other same]
    exact h p

theorem Matches.replay (h : r.Matches s) (c : Change) : (r.replay c).Matches (s.replay c) := by
  unfold Snapshot.replay
  split
  · exact h.insert c.entry
  · exact h.insert c.entry
  · exact h.remove c.path

theorem Matches.replayAll (h : r.Matches s) (cs : List Change) :
    (r.replayAll cs).Matches (s.replayAll cs) := by
  induction cs generalizing r s with
  | nil => exact h
  | cons c rest ih => exact ih (h.replay c)

theorem fits_of_matches (h : r.Matches s) (fits : c.Fits s) : c.Fits r := by
  have here := h c.path
  unfold Change.Fits at *
  split
  · rename_i kind
    rw [kind] at fits
    rw [show s.get? c.path = none from fits] at here
    exact here.none_right
  · rename_i kind
    rw [kind] at fits
    obtain ⟨e, found, same⟩ := fits
    rw [found] at here
    obtain ⟨k, known, alike⟩ := here.some_right
    refine ⟨k, known, ?_⟩
    exact Entry.Matches.trans (x := some k) (y := some e) (z := some c.entry) alike same
  · rename_i kind
    rw [kind] at fits
    obtain ⟨e, found, file, new, changed⟩ := fits
    rw [found] at here
    obtain ⟨k, known, alike⟩ := here.some_right
    obtain ⟨kinds, same⟩ := Entry.differs_eq_false_iff.mp alike
    have plain : k.isDirectory = false := kinds.trans file
    obtain ⟨written, size⟩ := same.resolve_left (by simp [plain])
    exact ⟨k, known, plain, new, by rw [written, size]; exact changed⟩

theorem accepts_of_matches (h : r.Matches s) (fits : s.Accepts cs) : r.Accepts cs := by
  induction cs generalizing r s with
  | nil => trivial
  | cons c rest ih => exact ⟨fits_of_matches h fits.1, ih (h.replay c) fits.2⟩

structure Replays (s : Snapshot) (cs : List Change) (t : Snapshot) : Prop where
  accepts : s.Accepts cs
  leads : (s.replayAll cs).Matches t

theorem Replays.none (h : s.Matches t) : Replays s [] t := ⟨trivial, h⟩

theorem Replays.trans (one : Replays s cs t) (two : Replays t ds u) : Replays s (cs ++ ds) u := by
  constructor
  · exact accepts_append.mpr ⟨one.accepts, accepts_of_matches one.leads two.accepts⟩
  · rw [replayAll_append]
    exact (one.leads.replayAll ds).trans two.leads

theorem replays_added (apart : Apart es) (absent : ∀ e ∈ es, s.get? e.path = none) :
    Replays s (es.map .added) (s.insertAll es) := by
  induction es generalizing s with
  | nil => exact .none (.refl s)
  | cons e rest ih =>
    obtain ⟨alone, tail⟩ := List.pairwise_cons.mp apart
    have later := ih (s := s.insert e) tail fun k found => by
      rw [get?_insert_other (alone k found).symm]
      exact absent k (List.mem_cons_of_mem _ found)
    exact ⟨⟨absent e List.mem_cons_self, later.accepts⟩, later.leads⟩

theorem accepts_removed (apart : Apart es) (present : ∀ e ∈ es, s.get? e.path = some e) :
    s.Accepts (es.map .removed) := by
  induction es generalizing s with
  | nil => trivial
  | cons e rest ih =>
    obtain ⟨alone, tail⟩ := List.pairwise_cons.mp apart
    refine ⟨⟨e, present e List.mem_cons_self, e.differs_self⟩, ih tail fun k found => ?_⟩
    have other : (s.remove e.path).get? k.path = s.get? k.path := get?_remove_other (alone k found).symm
    exact other.trans (present k (List.mem_cons_of_mem _ found))

theorem get?_removed (found : ∃ e ∈ es, p.components = e.path.components) :
    (s.replayAll (es.map .removed)).get? p = none := by
  induction es generalizing s with
  | nil => simp at found
  | cons e rest ih =>
    rw [List.map_cons, replayAll_cons]
    by_cases later : ∃ k ∈ rest, p.components = k.path.components
    · exact ih later
    · obtain ⟨k, member, same⟩ := found
      rcases List.mem_cons.mp member with rfl | member
      · rw [get?_replayAll_other]
        · exact get?_remove_same same
        · intro c listed here
          obtain ⟨k, member, rfl⟩ := List.mem_map.mp listed
          exact later ⟨k, member, here⟩
      · exact absurd ⟨k, member, same⟩ later

theorem replays_removeSubtree (h : s.Keyed) (dir : Path) :
    Replays s ((s.subtree dir).map .removed) (s.removeSubtree dir) := by
  constructor
  · exact accepts_removed h.apart_subtree fun e found => (h.mem_subtree_iff.mp found).1
  · intro p
    by_cases inside : dir.components <+: p.components
    · rw [get?_removeSubtree_inside inside]
      cases known : s.get? p with
      | none =>
        rw [get?_replayAll_other]
        · rw [known]
          exact .rfl
        · intro c listed here
          obtain ⟨k, member, rfl⟩ := List.mem_map.mp listed
          have found := (h.mem_subtree_iff.mp member).1
          rw [← get?_congr (show p.components = k.path.components from here), known] at found
          cases found
      | some e =>
        have same := h p e known
        have member : e ∈ s.subtree dir := by
          rw [h.mem_subtree_iff, get?_congr same, same]
          exact ⟨known, inside⟩
        rw [get?_removed ⟨e, member, same.symm⟩]
        exact .rfl
    · rw [get?_removeSubtree_outside inside, get?_replayAll_other]
      · exact .rfl
      · intro c listed here
        obtain ⟨k, member, rfl⟩ := List.mem_map.mp listed
        have below := (h.mem_subtree_iff.mp member).2
        exact inside (here ▸ below)

theorem replays_modified (kind : k.isDirectory = e.isDirectory) (changed : k.differs e = true)
    (known : s.get? e.path = some k) : Replays s [.modified e] (s.insert e) := by
  refine ⟨⟨⟨k, known, Entry.file_of_differs kind changed⟩, trivial⟩, .refl _⟩

theorem matches_insert (known : s.get? e.path = some k) (same : k.differs e = false) :
    s.Matches (s.insert e) := by
  intro p
  by_cases here : p.components = e.path.components
  · rw [get?_insert_same here, get?_congr here, known]
    exact same
  · rw [get?_insert_other here]
    exact .rfl

end Snapshot

end DirWatch
