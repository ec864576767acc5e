import DirWatch.Proofs.Snapshot.Lookup

namespace DirWatch

namespace Entry

-- What no report tells apart: two absences, or two entries that do not differ.
def Matches : Option Entry → Option Entry → Prop
  | none, none => True
  | some a, some b => a.differs b = false
  | _, _ => False

variable {a b c : Entry} {x y z : Option Entry}

theorem differs_eq_false_iff : a.differs b = false ↔
    a.isDirectory = b.isDirectory ∧ (a.isDirectory = true ∨ a.written = b.written ∧ a.size = b.size) := by
  cases ha : a.isDirectory <;> cases hb : b.isDirectory <;> simp [differs, ha, hb]

theorem Matches.rfl : Matches x x := by
  cases x with
  | none => trivial
  | some a => exact differs_self a

theorem Matches.symm (h : Matches x y) : Matches y x := by
  cases x <;> cases y <;> first | exact h | skip
  rename_i a b
  exact (differs_comm b a).trans h

theorem Matches.trans (h : Matches x y) (k : Matches y z) : Matches x z := by
  cases x <;> cases y <;> cases z <;> try first | exact h | exact k | exact h.elim | exact k.elim
  rename_i a b c
  have h := differs_eq_false_iff.mp h
  have k := differs_eq_false_iff.mp k
  apply differs_eq_false_iff.mpr
  grind

theorem Matches.of_eq (h : x = y) : Matches x y := h ▸ Matches.rfl

theorem Matches.isSome (h : Matches x y) : x.isSome = y.isSome := by
  cases x <;> cases y <;> first | rfl | exact h.elim

theorem Matches.none_left (h : Matches none y) : y = none := by
  cases y <;> first | rfl | exact h.elim

theorem Matches.none_right (h : Matches x none) : x = none := h.symm.none_left

theorem Matches.some_left (h : Matches (some a) y) : ∃ b, y = some b ∧ a.differs b = false := by
  cases y with
  | none => exact h.elim
  | some b => exact ⟨b, Eq.refl _, h⟩

theorem Matches.some_right (h : Matches x (some b)) : ∃ a, x = some a ∧ a.differs b = false := by
  cases x with
  | none => exact h.elim
  | some a => exact ⟨a, Eq.refl _, h⟩

theorem isDirectory_of_differs (same : a.differs b = false) : a.isDirectory = b.isDirectory :=
  (differs_eq_false_iff.mp same).1

theorem file_of_differs (kind : a.isDirectory = b.isDirectory) (changed : a.differs b = true) :
    a.isDirectory = false ∧ b.isDirectory = false ∧ (a.written ≠ b.written ∨ a.size ≠ b.size) := by
  cases hb : b.isDirectory with
  | true => simp [differs, kind, hb] at changed
  | false =>
    rw [hb] at kind
    refine ⟨kind, Eq.refl _, ?_⟩
    simpa [differs, kind, hb] using changed

end Entry

namespace Snapshot

variable {s t : Snapshot} {p q dir : Path} {e k : Entry} {es : List Entry}

def Keyed (s : Snapshot) : Prop := ∀ p e, s.get? p = some e → e.path.components = p.components

theorem keyed_empty (root : Path) : Keyed (empty root) := by
  intro p e found
  cases found

theorem Keyed.insert (h : s.Keyed) : (s.insert e).Keyed := by
  intro p k found
  by_cases same : p.components = e.path.components
  · rw [get?_insert_same same] at found
    cases found
    exact same.symm
  · rw [get?_insert_other same] at found
    exact h p k found

theorem Keyed.insertAll (h : s.Keyed) : (s.insertAll es).Keyed := by
  induction es generalizing s with
  | nil => exact h
  | cons e rest ih => exact ih h.insert

theorem Keyed.remove (h : s.Keyed) : (s.remove q).Keyed :=
  fun p k found => h p k (get?_of_remove found)

theorem Keyed.removeSubtree (h : s.Keyed) : (s.removeSubtree dir).Keyed :=
  fun p k found => h p k (get?_of_removeSubtree found)

theorem Keyed.of_item (h : s.Keyed) {item : Item} (found : item ∈ s.items) :
    item.entry.path.components = item.key.components :=
  h item.key item.entry (get?_eq_some_iff.mpr ⟨item, found, rfl, rfl⟩)

theorem Keyed.mem_entries_iff (h : s.Keyed) : e ∈ s.entries ↔ s.get? e.path = some e := by
  rw [get?_eq_some_iff]
  constructor
  · intro found
    obtain ⟨item, member, rfl⟩ := List.mem_map.mp found
    exact ⟨item, member, h.of_item member, rfl⟩
  · intro given
    obtain ⟨item, member, _, rfl⟩ := given
    exact List.mem_map.mpr ⟨item, member, rfl⟩

theorem Keyed.mem_entries (h : s.Keyed) (found : s.get? p = some e) : e ∈ s.entries := by
  rw [h.mem_entries_iff, get?_congr (h p e found)]
  exact found

def Sorted (es : List Entry) : Prop := es.Pairwise fun a b => compare a.path b.path = .lt

theorem Sorted.apart (h : Sorted es) : Apart es := by
  apply List.Pairwise.imp _ h
  intro a b before same
  rw [Path.compare_eq_iff.mpr same] at before
  cases before

theorem Sorted.ext {fs : List Entry} (one : Sorted es) (other : Sorted fs) (same : ∀ e, e ∈ es ↔ e ∈ fs) :
    es = fs := by
  have once {gs : List Entry} (sorted : Sorted gs) : gs.Nodup :=
    sorted.apart.imp fun differ same => differ (by rw [same])
  have perm : es.Perm fs := (List.perm_ext_iff_of_nodup (once one) (once other)).mpr same
  refine perm.eq_of_pairwise (fun a b _ _ before after => ?_) one other
  have swapped := Std.OrientedCmp.gt_of_lt before
  rw [after] at swapped
  cases swapped

theorem Keyed.compare_lt (h : s.Keyed) {a b : Item} (ha : a ∈ s.items) (hb : b ∈ s.items)
    (before : compare a.key b.key = .lt) : compare a.entry.path b.entry.path = .lt := by
  have left := Path.compare_eq_iff.mpr (h.of_item ha)
  have right := Path.compare_eq_iff.mpr (h.of_item hb).symm
  exact Std.TransCmp.lt_of_lt_of_eq (Std.TransCmp.lt_of_eq_of_lt left before) right

theorem Keyed.sorted_filter (h : s.Keyed) (keep : Item → Bool) :
    Sorted ((s.items.filter keep).map Item.entry) := by
  apply List.pairwise_map.mpr
  have ordered := List.Pairwise.filter keep s.ordered
  apply List.Pairwise.imp_of_mem _ ordered
  intro a b ha hb before
  exact h.compare_lt (List.mem_of_mem_filter ha) (List.mem_of_mem_filter hb) before

theorem Keyed.sorted_entries (h : s.Keyed) : Sorted s.entries := by
  have all := h.sorted_filter fun _ => true
  rwa [List.filter_eq_self.mpr fun _ _ => rfl] at all

theorem Keyed.sorted_below (h : s.Keyed) : Sorted (s.below dir) := h.sorted_filter _

theorem Keyed.mem_below_iff (h : s.Keyed) : e ∈ s.below dir ↔ s.get? e.path = some e ∧
    dir.components <+: e.path.components ∧ dir.components ≠ e.path.components := by
  unfold below
  rw [List.mem_map, get?_eq_some_iff]
  constructor
  · intro given
    obtain ⟨item, member, rfl⟩ := given
    obtain ⟨member, inside⟩ := List.mem_filter.mp member
    simp only [Bool.and_eq_true, bne_iff_ne, ne_eq, Path.startsWith_iff, Path.compare_eq_iff] at inside
    have same := h.of_item member
    exact ⟨⟨item, member, same, rfl⟩, same ▸ inside.1, same ▸ inside.2⟩
  · intro given
    obtain ⟨⟨item, member, same, rfl⟩, inside, proper⟩ := given
    rw [same] at inside proper
    refine ⟨item, List.mem_filter.mpr ⟨member, ?_⟩, rfl⟩
    simp only [Bool.and_eq_true, bne_iff_ne, ne_eq, Path.startsWith_iff, Path.compare_eq_iff]
    exact ⟨inside, proper⟩

theorem Keyed.mem_subtree_iff (h : s.Keyed) :
    e ∈ s.subtree dir ↔ s.get? e.path = some e ∧ dir.components <+: e.path.components := by
  unfold subtree
  rw [List.mem_reverse, List.mem_map, get?_eq_some_iff]
  constructor
  · intro given
    obtain ⟨item, member, rfl⟩ := given
    obtain ⟨member, inside⟩ := List.mem_filter.mp member
    have same := h.of_item member
    exact ⟨⟨item, member, same, rfl⟩, same ▸ Path.startsWith_iff.mp inside⟩
  · intro given
    obtain ⟨⟨item, member, same, rfl⟩, inside⟩ := given
    rw [same] at inside
    exact ⟨item, List.mem_filter.mpr ⟨member, Path.startsWith_iff.mpr inside⟩, rfl⟩

theorem Keyed.apart_subtree (h : s.Keyed) : Apart (s.subtree dir) := by
  apply List.pairwise_reverse.mpr
  apply List.Pairwise.imp _ (h.sorted_filter _).apart
  intro a b apart
  exact apart.symm

-- Two snapshots that hold the same, as far as reports go.
def Matches (s t : Snapshot) : Prop := ∀ p, Entry.Matches (s.get? p) (t.get? p)

theorem Matches.refl (s : Snapshot) : s.Matches s := fun _ => .rfl

theorem Matches.symm (h : s.Matches t) : t.Matches s := fun p => (h p).symm

theorem Matches.trans {r : Snapshot} (h : r.Matches s) (k : s.Matches t) : r.Matches t :=
  fun p => (h p).trans (k p)

end Snapshot

end DirWatch
