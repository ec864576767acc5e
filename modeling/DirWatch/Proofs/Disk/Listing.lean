import DirWatch.Disk.Lookup
import Mathlib.Data.List.Basic

namespace DirWatch

namespace Listing

variable {n m : Name} {node found : Node} {l rest : Listing} {low : Option Name}

-- Induction over the entries of a listing, with those of a directory in it.
theorem induct_cons {motive : Listing → Prop} (done : motive done)
    (cons : ∀ n node rest, (∀ t inside, node = .dir t inside → motive inside) → motive rest →
      motive (Listing.cons n node rest)) (l : Listing) : motive l := by
  induction l with
  | done => exact done
  | file n size t rest ih => exact cons n (.file size t) rest (fun _ _ same => by cases same) ih
  | link n target t rest ih => exact cons n (.link target t) rest (fun _ _ same => by cases same) ih
  | dir n t inside rest deeper ih =>
    refine cons n (.dir t inside) rest (fun _ _ same => ?_) ih
    cases same
    exact deeper

@[simp]
theorem find?_cons : (cons n node rest).find? m = if n = m then some node else rest.find? m := by
  cases node <;> rfl

def linkFree : Listing → Bool
  | done => true
  | file _ _ _ rest => rest.linkFree
  | link .. => false
  | dir _ _ inside rest => inside.linkFree && rest.linkFree

end Listing

namespace Node

def linkFree : Node → Bool
  | file .. => true
  | link .. => false
  | dir _ inside => inside.linkFree

end Node

namespace Listing

variable {n m : Name} {node found : Node} {l rest : Listing} {low : Option Name}

@[simp]
theorem linkFree_cons : (cons n node rest).linkFree = (node.linkFree && rest.linkFree) := by
  cases node <;> simp [cons, linkFree, Node.linkFree]

theorem linkFree_find? (plain : l.linkFree = true) (here : l.find? n = some node) :
    node.linkFree = true := by
  induction l using induct_cons with
  | done => cases here
  | cons m first rest _ ih =>
    rw [linkFree_cons, Bool.and_eq_true] at plain
    rw [find?_cons] at here
    split at here
    · cases here
      exact plain.1
    · exact ih plain.2 here

theorem after_of_find? (ordered : l.orderedAfter low = true) (here : l.find? m = some node) :
    m.after low = true := by
  induction l using induct_cons generalizing low with
  | done => cases here
  | cons n first rest _ ih =>
    obtain ⟨after, _, _, later⟩ := orderedAfter_cons.mp ordered
    rw [find?_cons] at here
    split at here
    · rename_i same
      exact same ▸ after
    · exact after_trans after (ih later here)

theorem ne_of_after (after : m.after (some n) = true) : n ≠ m := by
  intro same
  subst same
  simp only [Name.after, beq_iff_eq] at after
  have self : compare n n = .eq := Std.ReflCmp.compare_self
  rw [self] at after
  cases after

theorem find?_of_orderedAfter (ordered : l.orderedAfter (some n) = true) : l.find? n = none := by
  by_contra present
  obtain ⟨node, here⟩ := Option.ne_none_iff_exists'.mp present
  exact ne_of_after (after_of_find? ordered here) rfl

end Listing

theorem exists_name_of_prefix {place deeper : Place} (up : place <+: deeper) (proper : place ≠ deeper) :
    ∃ n rest, deeper = place ++ n :: rest := by
  obtain ⟨more, rfl⟩ := up
  obtain ⟨n, rest, rfl⟩ : ∃ n rest, more = n :: rest :=
    List.exists_cons_of_ne_nil fun top => proper (by rw [top, List.append_nil])
  exact ⟨n, rest, rfl⟩

namespace Node

variable {node below : Node} {place names : Place} {n : Name} {t : Instant} {inside : Listing}

theorem at?_nil : node.at? [] = some node := by
  cases node <;> rfl

theorem at?_dir : (Node.dir t inside).at? (n :: names) = (inside.find? n).bind (at? names) := by
  rw [at?]
  cases inside.find? n with
  | none => rfl
  | some node => rw [Option.bind_some]

theorem isDir_of_at? (here : (node.at? (n :: names)) = some below) : ∃ t inside, node = .dir t inside := by
  cases node with
  | dir t inside => exact ⟨t, inside, rfl⟩
  | file => cases here
  | link => cases here

theorem at?_append : node.at? (place ++ names) = (node.at? place).bind (at? names) := by
  induction place generalizing node with
  | nil => rw [List.nil_append, at?_nil, Option.bind_some]
  | cons n rest ih =>
    cases node with
    | dir t inside =>
      rw [List.cons_append, at?_dir, at?_dir]
      cases inside.find? n with
      | none => rfl
      | some node => exact ih
    | file => rfl
    | link => rfl

theorem linkFree_at? (plain : node.linkFree = true) (here : node.at? place = some below) :
    below.linkFree = true := by
  induction place generalizing node with
  | nil =>
    rw [at?_nil] at here
    cases here
    exact plain
  | cons n rest ih =>
    obtain ⟨t, inside, rfl⟩ := isDir_of_at? here
    rw [at?_dir] at here
    obtain ⟨next, found, later⟩ := Option.bind_eq_some_iff.mp here
    exact ih (Listing.linkFree_find? plain found) later

theorem sound_at? (ordered : node.Ordered) (here : node.at? place = some below) :
    below.Ordered ∧ ∀ n ∈ place, n.isStorable = true := by
  induction place generalizing node with
  | nil =>
    rw [at?_nil] at here
    cases here
    exact ⟨ordered, by simp⟩
  | cons n rest ih =>
    obtain ⟨t, inside, rfl⟩ := isDir_of_at? here
    rw [at?_dir] at here
    obtain ⟨next, found, later⟩ := Option.bind_eq_some_iff.mp here
    have sound := @Listing.ordered_find? none n inside next ordered found
    obtain ⟨deep, storable⟩ := ih sound.1 later
    refine ⟨deep, fun m listed => ?_⟩
    rcases List.mem_cons.mp listed with rfl | listed
    · exact sound.2
    · exact storable m listed

end Node

namespace Disk

variable {d : Disk} {place names : Place} {n : Name} {node : Node} {t : Instant} {inside : Listing}

def linkFree (d : Disk) : Bool := d.top.linkFree

theorem at?_append : d.at? (place ++ names) = (d.at? place).bind (Node.at? names) := Node.at?_append

theorem linkFree_at? (plain : d.linkFree = true) (here : d.at? place = some node) :
    node.linkFree = true := @Node.linkFree_at? d.node node place plain here

theorem ordered_at? (here : d.at? place = some node) : node.Ordered :=
  (@Node.sound_at? d.node node place d.ordered here).1

theorem storable_at? (here : d.at? place = some node) : ∀ n ∈ place, n.isStorable = true :=
  (@Node.sound_at? d.node node place d.ordered here).2

theorem at?_above (here : (d.at? (place ++ names)).isSome = true) : (d.at? place).isSome = true := by
  rw [at?_append] at here
  cases upper : d.at? place with
  | none => simp [upper] at here
  | some node => rfl

theorem at?_dropLast (here : (d.at? place).isSome = true) : (d.at? place.dropLast).isSome = true := by
  rcases List.eq_nil_or_concat' place with rfl | ⟨above, n, rfl⟩
  · exact here
  · rw [List.dropLast_concat]
    exact at?_above here

theorem at?_down (here : d.at? place = some (.dir t inside)) (found : inside.find? n = some node) :
    d.at? (place ++ [n]) = some node := by
  rw [at?_append, here, Option.bind_some, Node.at?_dir, found]
  exact Node.at?_nil

end Disk

end DirWatch
