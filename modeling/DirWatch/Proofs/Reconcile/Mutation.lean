import DirWatch.Proofs.Disk.Below
import DirWatch.Proofs.Reconcile.Toward

namespace DirWatch.Reconcile

open Snapshot Disk

variable {d d' : Disk} {root : Path} {names p q : List Name} {hints : List Record}

def Tells (r : Record) (action : Action) (names : List Name) : Prop :=
  r.action = action ∧ r.path.names? = some names

-- One change strictly below the root, and the hints that it leaves in the log. Only a file may give way
-- to what is moved.
inductive Mutation (root : Path) (d : Disk) : List Record → Disk → Prop
  | makeDir {names : List Name} {r : Record} {d' : Disk} (written : Instant) : names ≠ [] →
      d.apply (.makeDir (root.join (.ofNames names)) written) = some d' →
      Tells r .added names → Mutation root d [r] d'
  | makeFile {names : List Name} {r : Record} {d' : Disk} (size : UInt64) (written : Instant) : names ≠ [] →
      d.found? (root.join (.ofNames names)) true = none →
      d.apply (.makeFile (root.join (.ofNames names)) size written) = some d' →
      Tells r .added names → Mutation root d [r] d'
  | rewrite {names : List Name} {r : Record} {d' : Disk} (size : UInt64) (written : Instant) : names ≠ [] →
      (d.found? (root.join (.ofNames names)) true).isSome = true →
      d.apply (.makeFile (root.join (.ofNames names)) size written) = some d' →
      Tells r .modified names → Mutation root d [r] d'
  | touch {names : List Name} {r : Record} {d' : Disk} (written : Instant) : names ≠ [] →
      d.apply (.touch (root.join (.ofNames names)) written) = some d' →
      Tells r .modified names → Mutation root d [r] d'
  | remove {names : List Name} {r : Record} {d' : Disk} : names ≠ [] →
      d.apply (.remove (root.join (.ofNames names))) = some d' →
      Tells r .removed names → Mutation root d [r] d'
  | move {names target : List Name} {r k : Record} {d' : Disk} : names ≠ [] → target ≠ [] →
      d.isDir (root.join (.ofNames target)) = false →
      d.apply (.move (root.join (.ofNames names)) (root.join (.ofNames target))) = some d' →
      Tells r .renamedFrom names → Tells k .renamedTo target → Mutation root d [r, k] d'

-- What a change does to the entries below the root, as the hints tell it.
inductive Shift (before after : View) : List Record → Prop
  | appears {r : Record} {p : List Name} : p ≠ [] → Tells r .added p → (after p).isSome = true →
      (∀ q, q ≠ p → after q = before q) → Shift before after [r]
  | alters {r : Record} {p : List Name} : p ≠ [] → Tells r .modified p → (before p).isSome = true →
      (after p).isSome = true → (∀ q, q ≠ p → after q = before q) → Shift before after [r]
  | vanishes {r : Record} {p : List Name} : p ≠ [] → Tells r .removed p →
      (∀ q, p <+: q → after q = none) → (∀ q, ¬p <+: q → after q = before q) → Shift before after [r]
  | moves {r k : Record} {p q : List Name} : p ≠ [] → q ≠ [] → Tells r .renamedFrom p → Tells k .renamedTo q →
      (before q = none ∨ (∃ e, before q = some e ∧ e.isDirectory = false) ∧ (after q).isSome = true) →
      (∀ x, p <+: x → ¬q <+: x → after x = none) →
      (∀ x, ¬p <+: x → ¬q <+: x → after x = before x) → Shift before after [r, k]

section Swapped

variable {place : Place}

theorem sight_below_none (gone : d.sight place p = none) (up : p <+: q) : d.sight place q = none := by
  obtain ⟨more, rfl⟩ := up
  unfold sight at *
  rw [← List.append_assoc, at?_append, Option.map_eq_none_iff.mp gone]
  rfl

theorem sight_below_leaf (leaf : ∀ t l, d.at? (place ++ p) ≠ some (.dir t l)) (up : p <+: q)
    (proper : p ≠ q) : d.sight place q = none := by
  obtain ⟨n, rest, rfl⟩ := exists_name_of_prefix up proper
  unfold sight
  rw [← List.append_assoc, at?_append, Option.map_eq_none_iff, Option.bind_eq_none_iff]
  intro node stood
  by_contra present
  obtain ⟨deep, found⟩ := Option.ne_none_iff_exists'.mp present
  obtain ⟨t, l, rfl⟩ := Node.isDir_of_at? found
  exact leaf t l stood

theorem sight_swapped {node : Node} (swapped : d.Swapped d' (place ++ p) (some node)) :
    d'.sight place p = some (.ofNode (.ofNames p) node) := by
  have here := swapped.sight_here []
  rw [List.append_nil] at here
  exact here

theorem sight_swapped_leaf {node : Node} (swapped : d.Swapped d' (place ++ p) (some node))
    (leaf : ∀ n more, node.at? (n :: more) = none)
    (bare : ∀ q, p <+: q → p ≠ q → d.sight place q = none) (q : List Name) (other : q ≠ p) :
    d'.sight place q = d.sight place q := by
  by_cases below : p <+: q
  · rw [bare q below (Ne.symm other)]
    obtain ⟨n, rest, rfl⟩ := exists_name_of_prefix below (Ne.symm other)
    rw [swapped.sight_here, Option.bind_some, leaf]
    rfl
  · exact swapped.sight_other below

theorem sight_touched {node : Node} {written : Instant} (stood : d.at? (place ++ p) = some node)
    (swapped : d.Swapped d' (place ++ p) (some (node.withWritten written))) (q : List Name) (other : q ≠ p) :
    d'.sight place q = d.sight place q := by
  by_cases deeper : p <+: q
  · obtain ⟨n, rest, rfl⟩ := exists_name_of_prefix deeper (Ne.symm other)
    rw [swapped.sight_here]
    unfold sight
    rw [← List.append_assoc, at?_append, stood]
    cases node <;> rfl
  · exact swapped.sight_other deeper

end Swapped

section Plain

variable {place : Place} {budget : Nat} {t : Instant} {inside : Listing}
  (plain : d.linkFree = true) (looked : d.lookup root true = .ok ⟨place, .dir t inside, budget⟩)
include plain looked

theorem sight_eq_none_iff (below : names ≠ []) :
    d.sight place names = none ↔ d.found? (root.join (.ofNames names)) true = none := by
  unfold found? sight
  rw [lookup_plain true plain looked below, Option.map_eq_none_iff, Option.map_eq_none_iff]

theorem file_of_isDir {e : Entry} (below : names ≠ []) (file : d.isDir (root.join (.ofNames names)) = false)
    (seen : d.sight place names = some e) : e.isDirectory = false := by
  obtain ⟨node, stood, rfl⟩ := Option.map_eq_some_iff.mp seen
  have found := lookup_plain true plain looked below
  unfold isDir at file
  split at file
  · rename_i there led
    rw [led, stood] at found
    cases found
    exact file
  · rename_i error led
    rw [led, stood] at found
    cases found

theorem move_shift {r k : Record} (below : p ≠ []) (deep : q ≠ [])
    (file : d.isDir (root.join (.ofNames q)) = false)
    (done : d.apply (.move (root.join (.ofNames p)) (root.join (.ofNames q))) = some d')
    (tells : Tells r .renamedFrom p) (told : Tells k .renamedTo q) : d'.linkFree = true ∧
    Shift (d.sight place) (d'.sight place) [r, k] := by
  obtain ⟨free, ⟨rfl, rfl⟩ | ⟨node, between, stood, gives, away, arrived⟩⟩ :=
    move_below plain looked below deep done
  · refine ⟨free, .moves below deep tells told ?_ (fun x up outside => absurd up outside) fun _ _ _ => rfl⟩
    cases seen : d'.sight place p with
    | none => exact .inl rfl
    | some e => exact .inr ⟨⟨e, rfl, file_of_isDir plain looked below file seen⟩, rfl⟩
  · refine ⟨free, .moves below deep tells told ?_ (fun x up outside => ?_) fun x beside outside => ?_⟩
    · cases seen : d.sight place q with
      | none => exact .inl rfl
      | some e =>
        refine .inr ⟨⟨e, rfl, file_of_isDir plain looked deep file seen⟩, ?_⟩
        rw [sight_swapped arrived]
        rfl
    · rw [arrived.sight_other outside]
      obtain ⟨more, rfl⟩ := up
      exact away.sight_here more
    · rw [arrived.sight_other outside]
      exact away.sight_other beside

theorem Mutation.shift (mutation : Mutation root d hints d') : d'.linkFree = true ∧
    Shift (d.sight place) (d'.sight place) hints := by
  cases mutation with
  | makeDir written below done tells =>
    obtain ⟨absent, swapped, free⟩ := create_below plain looked below done
    have bare : d.sight place _ = none := Option.map_eq_none_iff.mpr absent
    refine ⟨free rfl, .appears below tells (by rw [sight_swapped swapped]; rfl) ?_⟩
    exact sight_swapped_leaf swapped (fun _ _ => rfl) fun q up _ => sight_below_none bare up
  | makeFile size written below absent done tells =>
    obtain ⟨_, swapped, free⟩ := makeFile_below plain looked below done
    have bare := (sight_eq_none_iff plain looked below).mpr absent
    refine ⟨free, .appears below tells (by rw [sight_swapped swapped]; rfl) ?_⟩
    exact sight_swapped_leaf swapped (fun _ _ => rfl) fun q up _ => sight_below_none bare up
  | rewrite size written below present done tells =>
    obtain ⟨leaf, swapped, free⟩ := makeFile_below plain looked below done
    refine ⟨free, .alters below tells ?_ (by rw [sight_swapped swapped]; rfl) ?_⟩
    · rw [Option.isSome_iff_ne_none] at *
      exact fun gone => present ((sight_eq_none_iff plain looked below).mp gone)
    · exact sight_swapped_leaf swapped (fun _ _ => rfl) fun q up proper => sight_below_leaf leaf up proper
  | touch written below done tells =>
    obtain ⟨node, stood, swapped, free⟩ := touch_below plain looked below done
    refine ⟨free, .alters below tells ?_ (by rw [sight_swapped swapped]; rfl) (sight_touched stood swapped)⟩
    unfold sight
    rw [stood]
    rfl
  | remove below done tells =>
    obtain ⟨swapped, free⟩ := remove_below plain looked below done
    refine ⟨free, .vanishes below tells (fun q up => ?_) fun q outside => swapped.sight_other outside⟩
    obtain ⟨more, rfl⟩ := up
    exact swapped.sight_here more
  | move below deep file done tells told => exact move_shift plain looked below deep file done tells told

end Plain

end DirWatch.Reconcile
