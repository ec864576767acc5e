import DirWatch.Disk.Edit
import DirWatch.Proofs.Disk.Lookup
import DirWatch.Scan

namespace DirWatch

namespace Listing

variable {n m : Name} {node here : Node} {l rest : Listing} {low : Option Name} {place : Place}

theorem set_cons : (cons m here rest).set n node =
    Listing.place n node m (cons m here rest) rest (rest.set n node) here := by
  cases here <;> rfl

theorem erase_cons : (cons m here rest).erase n = if m = n then rest else cons m here (rest.erase n) := by
  cases here <;> rfl

theorem find?_set : (l.set n node).find? m = if n = m then some node else l.find? m := by
  induction l using induct_cons with
  | done => exact find?_cons
  | cons k here rest _ ih =>
    rw [set_cons]
    unfold Listing.place
    split
    · exact find?_cons
    · rename_i same
      obtain rfl := Std.LawfulEqOrd.eq_of_compare same
      rw [find?_cons, find?_cons]
      split <;> rfl
    · rename_i later
      have other : n ≠ k := by
        intro same
        subst same
        have self : compare n n = .eq := Std.ReflCmp.compare_self
        rw [self] at later
        cases later
      rw [find?_cons, find?_cons, ih]
      by_cases here : k = m
      · subst here
        rw [if_pos rfl, if_pos rfl, if_neg other]
      · rw [if_neg here, if_neg here]

theorem find?_erase (ordered : l.orderedAfter low = true) :
    (l.erase n).find? m = if n = m then none else l.find? m := by
  induction l using induct_cons generalizing low with
  | done => exact (ite_self none).symm
  | cons k here rest _ ih =>
    obtain ⟨_, _, _, later⟩ := orderedAfter_cons.mp ordered
    rw [erase_cons]
    by_cases first : k = n
    · subst first
      rw [if_pos rfl, find?_cons]
      split
      · rename_i same
        subst same
        exact find?_of_orderedAfter later
      · rfl
    · rw [if_neg first, find?_cons, find?_cons, ih later]
      by_cases same : k = m
      · subst same
        rw [if_pos rfl, if_pos rfl, if_neg (Ne.symm first)]
      · rw [if_neg same, if_neg same]

theorem linkFree_set (plain : l.linkFree = true) (free : node.linkFree = true) :
    (l.set n node).linkFree = true := by
  induction l using induct_cons with
  | done =>
    rw [set, linkFree_cons, free]
    rfl
  | cons k here rest _ ih =>
    rw [set_cons]
    unfold Listing.place
    have both := plain
    rw [linkFree_cons, Bool.and_eq_true] at both
    split
    · rw [linkFree_cons, free, plain]
      rfl
    · rw [linkFree_cons, free, both.2]
      rfl
    · rw [linkFree_cons, both.1, ih both.2]
      rfl

theorem linkFree_erase (plain : l.linkFree = true) : (l.erase n).linkFree = true := by
  induction l using induct_cons with
  | done => exact plain
  | cons k here rest _ ih =>
    rw [linkFree_cons, Bool.and_eq_true] at plain
    rw [erase_cons]
    split
    · exact plain.2
    · rw [linkFree_cons, plain.1, ih plain.2]
      rfl

theorem editAt_cons {f : Sound → Option Sound} {l edited : Sound}
    (done : editAt f (n :: place) l = some edited) :
    ∃ t inside, ∃ sound : inside.Ordered, ∃ below : Sound, l.val.find? n = some (.dir t inside) ∧
      editAt f place ⟨inside, sound⟩ = some below ∧ edited.val = l.val.set n (.dir t below.val) := by
  unfold editAt at done
  split at done
  · rename_i t inside found
    obtain ⟨below, lower, rfl⟩ := Option.map_eq_some_iff.mp done
    exact ⟨t, inside, _, below, found, lower, rfl⟩
  · cases done

theorem linkFree_editAt {f : Sound → Option Sound}
    (keeps : ∀ l edited, f l = some edited → l.val.linkFree = true → edited.val.linkFree = true)
    {l edited : Sound} (done : editAt f place l = some edited) (plain : l.val.linkFree = true) :
    edited.val.linkFree = true := by
  induction place generalizing l edited with
  | nil => exact keeps l edited done plain
  | cons n rest ih =>
    obtain ⟨t, inside, sound, below, found, lower, same⟩ := editAt_cons done
    rw [same]
    exact linkFree_set plain (ih lower (linkFree_find? plain found))

end Listing

namespace Node

variable {before after : Node} {place : Place} {n : Name} {stands : Option Node} {t u : Instant}
  {l inside edited : Listing} {node : Node}

-- The second node is the first one with something else, or nothing, at one place.
structure Swapped (before after : Node) (place : Place) (stands : Option Node) : Prop where
  here : ∀ more, after.at? (place ++ more) = stands.bind (at? more)
  other : ∀ q path, ¬place <+: q → (after.at? q).map (Entry.ofNode path) =
    (before.at? q).map (Entry.ofNode path)

theorem swapped_of_find? (same : edited.find? n = stands) (rest : ∀ m, n ≠ m → edited.find? m = l.find? m) :
    Swapped (.dir t l) (.dir t edited) [n] stands := by
  constructor
  · intro more
    rw [List.singleton_append, at?_dir, same]
  · intro q path outside
    cases q with
    | nil => rw [at?_nil, at?_nil]; rfl
    | cons m more =>
      have other : n ≠ m := by
        intro same
        subst same
        exact outside (by simp)
      rw [at?_dir, at?_dir, rest m other]

theorem swapped_down (found : l.find? n = some (.dir u inside))
    (lower : Swapped (.dir u inside) (.dir u edited) place stands) :
    Swapped (.dir t l) (.dir t (l.set n (.dir u edited))) (n :: place) stands := by
  constructor
  · intro more
    rw [List.cons_append, at?_dir, Listing.find?_set, if_pos rfl]
    exact lower.here more
  · intro q path outside
    cases q with
    | nil => rw [at?_nil, at?_nil]; rfl
    | cons m more =>
      rw [at?_dir, at?_dir, Listing.find?_set]
      by_cases same : n = m
      · subst same
        rw [if_pos rfl, found]
        exact lower.other more path fun up => outside (List.cons_prefix_cons.mpr ⟨rfl, up⟩)
      · rw [if_neg same]

theorem swapped_editAt {f : Listing.Sound → Option Listing.Sound}
    (swaps : ∀ l edited, f l = some edited → ∀ t, Swapped (.dir t l.val) (.dir t edited.val) [n] stands)
    {l edited : Listing.Sound} (done : Listing.editAt f place l = some edited) (t : Instant) :
    Swapped (.dir t l.val) (.dir t edited.val) (place ++ [n]) stands := by
  induction place generalizing l edited t with
  | nil => exact swaps l edited done t
  | cons m rest ih =>
    obtain ⟨u, inside, sound, below, found, lower, same⟩ := Listing.editAt_cons done
    rw [same]
    exact swapped_down found (ih lower u)

end Node

namespace Disk

variable {d d' : Disk} {place dir : Place} {n : Name} {node : Node.Sound} {stands : Option Node}

def Swapped (d d' : Disk) (place : Place) (stands : Option Node) : Prop := d.node.Swapped d'.node place stands

theorem putAt_swapped (done : d.putAt dir n node = some d') : d.Swapped d' (dir ++ [n]) (some node.val) := by
  obtain ⟨l, edited, rfl⟩ := Option.map_eq_some_iff.mp done
  refine Node.swapped_editAt (fun l edited put t => ?_) edited d.written
  unfold Listing.put? at put
  split at put
  · cases put
    exact Node.swapped_of_find? (Listing.find?_set.trans (if_pos rfl)) fun m other =>
      Listing.find?_set.trans (if_neg other)
  · cases put

theorem dropAt_swapped (done : d.dropAt dir n = some d') : d.Swapped d' (dir ++ [n]) none := by
  obtain ⟨l, edited, rfl⟩ := Option.map_eq_some_iff.mp done
  refine Node.swapped_editAt (fun l edited drop t => ?_) edited d.written
  unfold Listing.drop? at drop
  split at drop
  · cases drop
    exact Node.swapped_of_find? ((Listing.find?_erase l.property).trans (if_pos rfl)) fun m other =>
      (Listing.find?_erase l.property).trans (if_neg other)
  · cases drop

theorem putAt_linkFree (done : d.putAt dir n node = some d') (plain : d.linkFree = true)
    (free : node.val.linkFree = true) : d'.linkFree = true := by
  obtain ⟨l, edited, rfl⟩ := Option.map_eq_some_iff.mp done
  refine Listing.linkFree_editAt (fun l edited put kept => ?_) edited plain
  unfold Listing.put? at put
  split at put
  · cases put
    exact Listing.linkFree_set kept free
  · cases put

theorem dropAt_linkFree (done : d.dropAt dir n = some d') (plain : d.linkFree = true) : d'.linkFree = true := by
  obtain ⟨l, edited, rfl⟩ := Option.map_eq_some_iff.mp done
  refine Listing.linkFree_editAt (fun l edited drop kept => ?_) edited plain
  unfold Listing.drop? at drop
  split at drop
  · cases drop
    exact Listing.linkFree_erase kept
  · cases drop

end Disk

end DirWatch
