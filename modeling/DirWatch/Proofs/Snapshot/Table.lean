import DirWatch.Proofs.Snapshot.Blocks
import Mathlib.Data.Set.Card

namespace DirWatch.Snapshot

variable {s : Snapshot} {p q : Path} {e : Entry} {es : List Entry} {c : List Component}

-- Entries by the components of their paths.
abbrev Table := List Component → Option Entry

namespace Table

def put (m : Table) (e : Entry) : Table := Function.update m e.path.components (some e)

def drop (m : Table) (p : Path) : Table := Function.update m p.components none

def dropBelow (m : Table) (p : Path) : Table := fun c => if p.components <+: c then none else m c

end Table

-- What can be done to a snapshot.
inductive Operation
  | insert (e : Entry)
  | insertAll (es : List Entry)
  | remove (p : Path)
  | removeSubtree (p : Path)

namespace Operation

def run (s : Snapshot) : Operation → Snapshot × Option Entry
  | .insert e => (s.insert e, s.get? e.path)
  | .insertAll es => (s.insertAll es, none)
  | .remove p => (s.remove p, s.get? p)
  | .removeSubtree p => (s.removeSubtree p, none)

def note (m : Table) : Operation → Table × Option Entry
  | .insert e => (m.put e, m e.path.components)
  | .insertAll es => (es.foldl Table.put m, none)
  | .remove p => (m.drop p, m p.components)
  | .removeSubtree p => (m.dropBelow p, none)

def runAll (s : Snapshot) : List Operation → Snapshot × List (Option Entry)
  | [] => (s, [])
  | op :: rest =>
    let (t, stood) := op.run s
    let (u, later) := runAll t rest
    (u, stood :: later)

def noteAll (m : Table) : List Operation → Table × List (Option Entry)
  | [] => (m, [])
  | op :: rest =>
    let (n, stood) := op.note m
    let (o, later) := noteAll n rest
    (o, stood :: later)

end Operation

variable {m : Table} {ops : List Operation}

-- The table that a snapshot keeps, each entry in its own place.
structure Keeps (m : Table) (s : Snapshot) : Prop where
  found : ∀ p, s.get? p = m p.components
  own : ∀ c e, m c = some e → e.path.components = c

namespace Keeps

theorem empty (root : Path) : Keeps (fun _ => none) (.empty root) := ⟨fun _ => rfl, fun _ _ none => by cases none⟩

variable (keeps : Keeps m s)
include keeps

theorem keyed : s.Keyed := fun p e stood => keeps.own p.components e (keeps.found p ▸ stood)

theorem put (e : Entry) : Keeps (m.put e) (s.insert e) := by
  refine ⟨fun p => ?_, fun c k stood => ?_⟩
  · by_cases here : p.components = e.path.components
    · rw [get?_insert_same here, Table.put, here, Function.update_self]
    · rw [get?_insert_other here, Table.put, Function.update_of_ne here, keeps.found]
  · unfold Table.put at stood
    by_cases here : c = e.path.components
    · subst here
      rw [Function.update_self] at stood
      cases stood
      rfl
    · rw [Function.update_of_ne here] at stood
      exact keeps.own c k stood

theorem putAll (es : List Entry) : Keeps (es.foldl Table.put m) (s.insertAll es) := by
  induction es generalizing m s with
  | nil => exact keeps
  | cons e rest ih => exact ih (keeps.put e)

theorem drop (p : Path) : Keeps (m.drop p) (s.remove p) := by
  refine ⟨fun q => ?_, fun c k stood => ?_⟩
  · by_cases here : q.components = p.components
    · rw [get?_remove_same here, Table.drop, here, Function.update_self]
    · rw [get?_remove_other here, Table.drop, Function.update_of_ne here, keeps.found]
  · unfold Table.drop at stood
    by_cases here : c = p.components
    · subst here
      rw [Function.update_self] at stood
      cases stood
    · rw [Function.update_of_ne here] at stood
      exact keeps.own c k stood

theorem dropBelow (p : Path) : Keeps (m.dropBelow p) (s.removeSubtree p) := by
  refine ⟨fun q => ?_, fun c k stood => ?_⟩
  · unfold Table.dropBelow
    split
    · rename_i inside
      exact get?_removeSubtree_inside inside
    · rename_i outside
      rw [get?_removeSubtree_outside outside, keeps.found]
  · unfold Table.dropBelow at stood
    split at stood
    · cases stood
    · exact keeps.own c k stood

-- Every operation does the same to both, and tells the same entry.
theorem run (op : Operation) : Keeps (op.note m).1 (op.run s).1 ∧ (op.run s).2 = (op.note m).2 := by
  cases op with
  | insert e => exact ⟨keeps.put e, keeps.found e.path⟩
  | insertAll es => exact ⟨keeps.putAll es, rfl⟩
  | remove p => exact ⟨keeps.drop p, keeps.found p⟩
  | removeSubtree p => exact ⟨keeps.dropBelow p, rfl⟩

theorem runAll (ops : List Operation) : Keeps (Operation.noteAll m ops).1 (Operation.runAll s ops).1 ∧
    (Operation.runAll s ops).2 = (Operation.noteAll m ops).2 := by
  induction ops generalizing m s with
  | nil => exact ⟨keeps, rfl⟩
  | cons op rest ih =>
    obtain ⟨kept, told⟩ := keeps.run op
    obtain ⟨last, later⟩ := ih kept
    exact ⟨last, congrArg₂ List.cons told later⟩

theorem places : {c | (m c).isSome = true} = ((s.items.map fun item => item.key.components).toFinset : Set _) := by
  ext c
  simp only [Set.mem_ofPred_eq, List.coe_toFinset, List.mem_map]
  constructor
  · intro present
    obtain ⟨e, stood⟩ := Option.isSome_iff_exists.mp present
    obtain rfl := keeps.own c e stood
    obtain ⟨item, listed, same, _⟩ := get?_eq_some_iff.mp ((keeps.found e.path).trans stood)
    exact ⟨item, listed, same.symm⟩
  · rintro ⟨item, listed, rfl⟩
    rw [← keeps.found, get?_key listed]
    rfl

end Keeps

theorem nodup_components : (s.items.map fun item => item.key.components).Nodup := by
  refine List.pairwise_map.mpr (s.ordered.imp fun before same => ?_)
  rw [Path.compare_eq_iff.mpr same] at before
  cases before

-- The snapshot is the table, as a list in the order of the paths.
structure Presents (m : Table) (s : Snapshot) : Prop where
  found : ∀ p, s.get? p = m p.components
  contained : ∀ p, s.contains p = (m p.components).isSome
  finite : {c | (m c).isSome = true}.Finite
  size : s.size = {c | (m c).isSome = true}.ncard
  listed : ∀ e, e ∈ s.entries ↔ m e.path.components = some e
  increasing : Sorted s.entries

theorem Keeps.presents (keeps : Keeps m s) : Presents m s := by
  have places := keeps.places
  refine ⟨keeps.found, fun p => ?_, ?_, ?_, fun e => ?_, keeps.keyed.sorted_entries⟩
  · rw [contains, keeps.found]
  · rw [places]
    exact Finset.finite_toSet _
  · rw [places, Set.ncard_coe_finset, List.toFinset_card_of_nodup nodup_components, List.length_map]
    rfl
  · rw [keeps.keyed.mem_entries_iff, keeps.found]

-- What is said of a path and all that lies below it: they stand together, the path itself first; a search from the
-- path on finds them; and they are taken out from the last one to the first.
structure Together (s : Snapshot) (p : Path) : Prop where
  block : ∃ before after, s.entries = before ++ ((s.get? p).toList ++ s.below p) ++ after ∧
    ∀ e, e ∈ before ∨ e ∈ after → ¬p.components <+: e.path.components
  below : s.below p = s.entries.filter fun e => p.components <+: e.path.components ∧ p.components ≠ e.path.components
  searched : s.below p = (s.searchBelow p).map Item.entry
  taken : s.subtree p = (s.entries.filter fun e => p.components <+: e.path.components).reverse
  deepest : (s.subtree p).Pairwise fun a b => ¬a.path.components <+: b.path.components
  left : (s.removeSubtree p).entries = s.entries.filter fun e => ¬p.components <+: e.path.components
  others : ∀ q, (s.removeSubtree p).get? q = if p.components <+: q.components then none else s.get? q
  removed : s.removeEach ((s.searchSubtree p).map Item.key).reverse = (s.removeSubtree p, s.subtree p)

theorem Keyed.together (keyed : s.Keyed) (p : Path) : Together s p := by
  have up (e : Entry) : e.path.startsWith p = decide (p.components <+: e.path.components) := by
    rw [Bool.eq_iff_iff, Path.startsWith_iff, decide_eq_true_iff]
  refine ⟨keyed.block p, ?_, ?_, ?_, ?_, ?_, fun q => ?_, removeEach_subtree s p⟩
  · rw [keyed.below_eq]
    refine List.filter_congr fun e _ => ?_
    rw [up, Bool.eq_iff_iff]
    simp [Path.compare_eq_iff]
  · rw [searchBelow_eq]
    rfl
  · rw [keyed.subtree_eq]
    simp only [up]
  · rw [keyed.subtree_eq]
    refine List.pairwise_reverse.mpr ((keyed.sorted_entries.filter _).imp fun {a b} before up => ?_)
    exact Path.compare_of_startsWith (Path.startsWith_iff.mpr up) before
  · rw [keyed.removeSubtree_entries]
    refine List.filter_congr fun e _ => ?_
    rw [up, decide_not]
  · split
    · rename_i inside
      exact get?_removeSubtree_inside inside
    · rename_i outside
      exact get?_removeSubtree_outside outside

-- From an empty snapshot on, every list of operations leads to the snapshot of the table that it leads to, and tells
-- the same entries on the way; in that snapshot all paths stand together with what lies below them.
theorem snapshot_is_map (root : Path) (ops : List Operation) :
    (Operation.runAll (.empty root) ops).2 = (Operation.noteAll (fun _ => none) ops).2 ∧
      Presents (Operation.noteAll (fun _ => none) ops).1 (Operation.runAll (.empty root) ops).1 ∧
      (∀ p, Together (Operation.runAll (.empty root) ops).1 p) ∧
      (Operation.runAll (.empty root) ops).1.subtree .empty =
        (Operation.runAll (.empty root) ops).1.entries.reverse := by
  obtain ⟨keeps, told⟩ := (Keeps.empty root).runAll ops
  refine ⟨told, keeps.presents, keeps.keyed.together, ?_⟩
  rw [keeps.keyed.subtree_eq]
  exact congrArg List.reverse (List.filter_eq_self.mpr fun e _ => rfl)

end DirWatch.Snapshot
