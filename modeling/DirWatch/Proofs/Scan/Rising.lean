import DirWatch.Proofs.Path.Order
import DirWatch.Proofs.Path.Rest
import DirWatch.Proofs.Scan.Walk
import DirWatch.Proofs.Snapshot.Keyed

namespace DirWatch

variable {scope : Scope} {root base path : Path} {spot : Spot} {front : List Component} {low : Option Name} {n : Name}
  {behind : Spot → Name → Path → List Entry} {d : Disk} {e : Entry} {es rest inside : List Entry} {links : Nat}

open Snapshot (Sorted)

def Under (root : Path) (front : List Component) (n : Name) (e : Entry) : Prop :=
  ∃ more : List Name, root.components ++ e.path.components = front ++ (n :: more).map .name

-- The entries stand in a directory under names that come after `low`, in the order of their paths.
structure Rising (root : Path) (front : List Component) (low : Option Name) (es : List Entry) : Prop where
  under : ∀ e ∈ es, ∃ n : Name, n.after low = true ∧ Under root front n e
  sorted : Sorted es

structure RisingUnder (root : Path) (front : List Component) (n : Name) (es : List Entry) : Prop where
  under : ∀ e ∈ es, Under root front n e
  sorted : Sorted es

theorem compare_full {p q : Path} {a b : List Component} (left : root.components ++ p.components = a)
    (right : root.components ++ q.components = b) : compare p q = compare a b := by
  rw [← left, ← right, Path.compare_front]
  rfl

theorem Under.lt {m : Name} {a b : Entry} (one : Under root front m a) (other : Under root front n b)
    (after : n.after (some m) = true) : compare a.path b.path = .lt := by
  obtain ⟨some, left⟩ := one
  obtain ⟨more, right⟩ := other
  rw [compare_full left right, Path.compare_front, List.map_cons, List.map_cons]
  exact Path.compare_names (by simpa [Name.after] using after) _ _

theorem Under.deeper {m : Name} (below : Under root (front ++ [.name n]) m e) : Under root front n e := by
  obtain ⟨more, place⟩ := below
  exact ⟨m :: more, by rw [place, List.append_assoc]; rfl⟩

namespace Rising

theorem nil : Rising root front low [] := ⟨(by simp), List.Pairwise.nil⟩

theorem append (after : n.after low = true) (first : RisingUnder root front n es)
    (later : Rising root front (some n) rest) : Rising root front low (es ++ rest) := by
  refine ⟨fun e met => ?_, List.pairwise_append.mpr ⟨first.sorted, later.sorted, fun a here b there => ?_⟩⟩
  · rcases List.mem_append.mp met with here | there
    · exact ⟨n, after, first.under e here⟩
    · obtain ⟨m, behind, place⟩ := later.under e there
      exact ⟨m, Listing.after_trans after behind, place⟩
  · obtain ⟨m, behind, place⟩ := later.under b there
    exact (first.under a here).lt place behind

theorem tree (top : root.components ++ e.path.components = front ++ [.name n])
    (below : Rising root (front ++ [.name n]) none inside) : RisingUnder root front n (e :: inside) := by
  refine ⟨fun k met => ?_, List.pairwise_cons.mpr ⟨fun k met => ?_, below.sorted⟩⟩
  · rcases List.mem_cons.mp met with rfl | met
    · exact ⟨[], top⟩
    · obtain ⟨m, _, place⟩ := below.under k met
      exact place.deeper
  · obtain ⟨m, _, more, place⟩ := below.under k met
    rw [compare_full top place]
    exact Path.compare_of_prefix (List.prefix_append _ _) (by simp)

end Rising

theorem RisingUnder.nil : RisingUnder root front n [] := ⟨(by simp), List.Pairwise.nil⟩

theorem RisingUnder.single (top : root.components ++ e.path.components = front ++ [.name n]) :
    RisingUnder root front n [e] := Rising.tree top .nil

theorem Spot.components_pathOf : (spot.pathOf n).components = spot.path.components ++ [.name n] :=
  Path.components_join spot.path [n]

theorem Spot.pathOf_ne_nil (nonempty : spot.path.bytes ≠ []) : (spot.pathOf n).bytes ≠ [] :=
  Disk.join_ne_nil nonempty (Path.isAbsolute_ofNames [n])

theorem Listing.bring_rising (nonempty : spot.path.bytes ≠ [])
    (links : ∀ path, root.components ++ path.components = spot.path.components ++ [.name n] →
      RisingUnder root spot.path.components n (behind spot n path)) {node : Node}
    (deeper : ∀ t inside, node = .dir t inside → ∀ spot : Spot, spot.path.bytes ≠ [] →
      Rising root spot.path.components none (walk scope root behind spot inside)) :
    RisingUnder root spot.path.components n (bring scope root behind spot n node) := by
  unfold bring
  cases kept : scope.keeps? root (spot.pathOf n) with
  | none => exact .nil
  | some path =>
    have place : root.components ++ path.components = spot.path.components ++ [.name n] := by
      unfold Scope.keeps? at kept
      split at kept
      · rename_i below left
        split at kept
        · cases kept
        · cases kept
          rw [← Path.components_of_relativeTo? left, Spot.components_pathOf]
      · cases kept
    dsimp only
    cases node with
    | file size t => exact .single place
    | link target t =>
      change RisingUnder root spot.path.components n
        (if scope.followLinks then behind spot n path else [.ofNode path (.link target t)])
      split
      · exact links path place
      · exact .single place
    | dir t inside =>
      refine Rising.tree place ?_
      split
      · rw [← Spot.components_pathOf]
        exact deeper t inside rfl (spot.enter n (spot.place ++ [n]) spot.budget) (Spot.pathOf_ne_nil nonempty)
      · exact .nil

theorem Listing.walk_rising (links : ∀ (spot : Spot) (n : Name) (path : Path), spot.path.bytes ≠ [] →
      root.components ++ path.components = spot.path.components ++ [.name n] →
      RisingUnder root spot.path.components n (behind spot n path))
    {l : Listing} (ordered : l.orderedAfter low = true) (nonempty : spot.path.bytes ≠ []) :
    Rising root spot.path.components low (walk scope root behind spot l) := by
  induction l using induct_cons generalizing low spot with
  | done => exact .nil
  | cons n node rest deeper ih =>
    obtain ⟨after, _, sound, later⟩ := orderedAfter_cons.mp ordered
    rw [walk_cons]
    refine .append after (bring_rising nonempty (fun path => links spot n path nonempty) ?_) (ih later nonempty)
    intro t inside same spot nonempty
    subst same
    exact deeper t inside rfl sound nonempty

theorem Disk.behindLink_rising {walk : Spot → Listing → List Entry}
    (walks : ∀ (spot : Spot) (l : Listing), l.Ordered → spot.path.bytes ≠ [] →
      Rising root spot.path.components none (walk spot l))
    (nonempty : spot.path.bytes ≠ []) (place : root.components ++ path.components = spot.path.components ++ [.name n]) :
    RisingUnder root spot.path.components n (d.behindLink scope walk spot n path) := by
  unfold behindLink
  split
  · exact .nil
  · rename_i there t inside budget resolved
    split
    · exact .nil
    · refine Rising.tree place ?_
      split
      · have sound : inside.Ordered := d.ordered_at? (at?_of_resolve resolved)
        rw [← Spot.components_pathOf]
        exact walks (spot.enter n there budget) inside sound (Spot.pathOf_ne_nil nonempty)
      · exact .nil
  · exact .single place

theorem Disk.walk_rising {l : Listing} (ordered : l.Ordered) (nonempty : spot.path.bytes ≠ []) :
    Rising root spot.path.components none (d.walk scope root links spot l) := by
  induction links generalizing spot l with
  | zero => exact Listing.walk_rising (fun _ _ _ _ _ => .nil) ordered nonempty
  | succ links ih =>
    refine Listing.walk_rising (fun spot n path nonempty place => ?_) ordered nonempty
    exact behindLink_rising (fun _ _ ordered nonempty => ih ordered nonempty) nonempty place

theorem Disk.entriesBelow_rising (scanned : d.entriesBelow scope root base = .ok es) :
    Rising root base.components none es := by
  unfold entriesBelow at scanned
  split at scanned
  · cases scanned
  · rename_i place t inside budget looked
    cases scanned
    have sound : inside.Ordered := d.ordered_at? (at?_of_resolve (lookup_ok looked).2.2)
    have nonempty : base.bytes ≠ [] := (lookup_ok looked).1
    have start : (Spot.mk base place [place] budget).path.bytes ≠ [] := nonempty
    exact walk_rising sound start
  · cases scanned

theorem Disk.entriesBelow_ok_iff : (∃ es, d.entriesBelow scope root base = .ok es) ↔ d.isDir base = true := by
  unfold entriesBelow isDir
  cases d.lookup base true with
  | error e => simp
  | ok f =>
    obtain ⟨place, node, budget⟩ := f
    cases node <;> simp [Node.isDir]

end DirWatch
