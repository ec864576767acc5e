import DirWatch.Proofs.Disk.Lookup
import DirWatch.Proofs.Snapshot.Lookup

namespace DirWatch

-- The entries met below the place of `names`, whose own names all come after `low`.
inductive Forest (scope : Scope) : List Name → Option Name → List Entry → Prop
  | empty {names low} : Forest scope names low []
  | tree {names low n e inside rest} :
      n.after low = true → e.path = .ofNames (names ++ [n]) →
      scope.excludes.excludes (.ofNames (names ++ [n])) = false →
      (inside ≠ [] → e.isDirectory = true ∧ scope.recursive = true) →
      Forest scope (names ++ [n]) none inside → Forest scope names (some n) rest →
      Forest scope names low (e :: inside ++ rest)

namespace Forest

variable {scope : Scope} {names front back : List Name} {low : Option Name} {m n : Name}
  {es inside : List Entry} {e : Entry}

theorem lower (forest : Forest scope names (some m) es) (after : m.after low = true) :
    Forest scope names low es := by
  cases forest with
  | empty => exact .empty
  | tree first path kept dir inside rest =>
    exact .tree (Listing.after_trans after first) path kept dir inside rest

theorem path_below (forest : Forest scope names low es) (met : e ∈ es) :
    ∃ n more, n.after low = true ∧ e.path = .ofNames (names ++ n :: more) := by
  induction forest with
  | empty => cases met
  | @tree names low n top inside rest after path kept dir _ _ deeper later =>
    rcases List.mem_append.mp met with here | met
    · rcases List.mem_cons.mp here with rfl | met
      · exact ⟨n, [], after, path⟩
      · obtain ⟨m, more, _, path⟩ := deeper met
        exact ⟨n, m :: more, after, by rw [path]; simp⟩
    · obtain ⟨m, more, behind, path⟩ := later met
      exact ⟨m, more, Listing.after_trans after behind, path⟩

theorem path_tree {top : Entry} (path : top.path = .ofNames (names ++ [n]))
    (below : Forest scope (names ++ [n]) none inside) (met : e ∈ top :: inside) :
    ∃ more, e.path = .ofNames (names ++ n :: more) := by
  rcases List.mem_cons.mp met with rfl | met
  · exact ⟨[], path⟩
  · obtain ⟨m, more, _, path⟩ := below.path_below met
    exact ⟨m :: more, by rw [path]; simp⟩

theorem apart (forest : Forest scope names low es) : Snapshot.Apart es := by
  induction forest with
  | empty => exact List.Pairwise.nil
  | @tree names low n top inside rest after path kept dir within beyond deeper later =>
    refine List.pairwise_append.mpr ⟨List.pairwise_cons.mpr ⟨?_, deeper⟩, later, ?_⟩
    · intro e met same
      obtain ⟨m, more, _, below⟩ := within.path_below met
      rw [path, below, Path.components_ofNames_inj] at same
      simp at same
    · intro a here b there same
      obtain ⟨more, left⟩ := path_tree path within here
      obtain ⟨m, others, behind, right⟩ := beyond.path_below there
      rw [left, right, Path.components_ofNames_inj] at same
      have names := (List.cons.inj (List.append_cancel_left same)).1
      exact Listing.ne_of_after behind names

theorem above (forest : Forest scope names low es) (met : e ∈ es) (upper : front ≠ []) (more : back ≠ [])
    (path : e.path = .ofNames (names ++ front ++ back)) :
    ∃ dir ∈ es, dir.path = .ofNames (names ++ front) ∧ dir.isDirectory = true := by
  induction forest generalizing front with
  | empty => cases met
  | @tree names low n top inside rest after own kept dir within beyond deeper later =>
    rcases List.mem_append.mp met with here | met
    · rcases List.mem_cons.mp here with rfl | met
      · rw [own] at path
        have short := List.append_cancel_left ((Path.ofNames_injective path).trans (List.append_assoc _ _ _))
        have length := congrArg List.length short
        have := List.length_pos_of_ne_nil upper
        have := List.length_pos_of_ne_nil more
        simp only [List.length_append, List.length_singleton] at length
        omega
      · obtain ⟨m, others, _, below⟩ := within.path_below met
        rw [below] at path
        have split := Path.ofNames_injective path
        obtain ⟨first, front, rfl⟩ := List.exists_cons_of_ne_nil upper
        simp only [List.append_assoc, List.cons_append, List.append_cancel_left_eq,
          List.cons.injEq] at split
        obtain ⟨rfl, split⟩ := split
        by_cases top : front = []
        · subst top
          refine ⟨_, List.mem_append_left _ List.mem_cons_self, own, (dir ?_).1⟩
          exact List.ne_nil_of_mem met
        · obtain ⟨k, listed, here, isDir⟩ := deeper met top (by rw [below, path]; simp)
          refine ⟨k, List.mem_append_left _ (List.mem_cons_of_mem _ listed), ?_, isDir⟩
          rw [here]
          simp
    · obtain ⟨k, listed, rest⟩ := later met upper path
      exact ⟨k, List.mem_append_right _ listed, rest⟩

theorem kept (forest : Forest scope names low es) (met : e ∈ es) :
    scope.excludes.excludes e.path = false := by
  induction forest with
  | empty => cases met
  | tree after path kept dir within beyond deeper later =>
    rcases List.mem_append.mp met with here | met
    · rcases List.mem_cons.mp here with rfl | met
      · rw [path]
        exact kept
      · exact deeper met
    · exact later met

theorem flat (forest : Forest scope names low es) (shallow : scope.recursive = false) (met : e ∈ es) :
    ∃ n, e.path = .ofNames (names ++ [n]) := by
  induction forest with
  | empty => cases met
  | @tree names low n top inside rest after path kept dir within beyond deeper later =>
    rcases List.mem_append.mp met with here | met
    · rcases List.mem_cons.mp here with rfl | met
      · exact ⟨n, path⟩
      · have deep := (dir (List.ne_nil_of_mem met)).2
        rw [shallow] at deep
        cases deep
    · exact later met

end Forest

variable {scope : Scope} {root : Path} {spot : Spot} {names : List Name} {low : Option Name} {n : Name}
  {behind : Spot → Name → Path → List Entry} {d : Disk}

theorem Spot.pathOf_eq (nonempty : root.bytes ≠ []) (at_ : spot.path = root.join (.ofNames names)) :
    spot.pathOf n = root.join (.ofNames (names ++ [n])) := by
  unfold pathOf
  rw [at_, Path.join_join nonempty]

theorem Scope.keeps?_eq (nonempty : root.bytes ≠ []) (below : names ≠ []) :
    scope.keeps? root (root.join (.ofNames names)) =
      if scope.excludes.excludes (.ofNames names) then none else some (.ofNames names) := by
  unfold keeps?
  rw [Path.relativeTo?_join nonempty below]

-- What may stand under one name: nothing, or an entry with a forest below it.
def IsTree (scope : Scope) (names : List Name) (n : Name) (es : List Entry) : Prop :=
  es = [] ∨ ∃ e inside, es = e :: inside ∧ e.path = .ofNames (names ++ [n]) ∧
    (inside ≠ [] → e.isDirectory = true ∧ scope.recursive = true) ∧
    Forest scope (names ++ [n]) none inside

-- Meeting one entry: it is left out, or it comes with what is below it.
def Listing.meet (scope : Scope) (root : Path) (behind : Spot → Name → Path → List Entry)
    (spot : Spot) (n : Name) (path : Path) : Node → List Entry
  | .file size t => [.ofNode path (.file size t)]
  | .link target t => if scope.followLinks then behind spot n path else [.ofNode path (.link target t)]
  | .dir t inside => .ofNode path (.dir t inside) ::
      if scope.recursive then
        walk scope root behind (spot.enter n (spot.place ++ [n]) spot.budget) inside
      else []

def Listing.bring (scope : Scope) (root : Path) (behind : Spot → Name → Path → List Entry)
    (spot : Spot) (n : Name) (node : Node) : List Entry :=
  match scope.keeps? root (spot.pathOf n) with
  | some path => meet scope root behind spot n path node
  | none => []

theorem Listing.walk_cons {node : Node} {rest : Listing} :
    walk scope root behind spot (cons n node rest) =
      bring scope root behind spot n node ++ walk scope root behind spot rest := by
  cases node <;> rfl

theorem Listing.bring_eq (nonempty : root.bytes ≠ []) (at_ : spot.path = root.join (.ofNames names))
    {node : Node} : bring scope root behind spot n node =
      if scope.excludes.excludes (.ofNames (names ++ [n])) then []
      else meet scope root behind spot n (.ofNames (names ++ [n])) node := by
  unfold bring
  rw [Spot.pathOf_eq nonempty at_, Scope.keeps?_eq nonempty (by simp)]
  split
  · rename_i path kept
    split at kept
    · cases kept
    · cases kept
      rw [if_neg (by assumption)]
  · rename_i left
    split at left
    · rw [if_pos (by assumption)]
    · cases left

theorem Forest.of_tree {es rest : List Entry} (after : n.after low = true)
    (kept : scope.excludes.excludes (.ofNames (names ++ [n])) = false)
    (tree : IsTree scope names n es) (forest : Forest scope names (some n) rest) :
    Forest scope names low (es ++ rest) := by
  rcases tree with rfl | ⟨e, inside, rfl, path, dir, below⟩
  · exact forest.lower after
  · exact .tree after path kept dir below forest

theorem Listing.walk_forest (nonempty : root.bytes ≠ [])
    (links : ∀ spot names n, spot.path = root.join (.ofNames names) →
      IsTree scope names n (behind spot n (.ofNames (names ++ [n]))))
    {l : Listing} (ordered : l.orderedAfter low = true) (at_ : spot.path = root.join (.ofNames names)) :
    Forest scope names low (walk scope root behind spot l) := by
  induction l using induct_cons generalizing low spot names with
  | done => exact .empty
  | cons n node rest deeper ih =>
    obtain ⟨after, _, sound, later⟩ := orderedAfter_cons.mp ordered
    have forest := ih later at_
    rw [walk_cons, bring_eq nonempty at_]
    cases out : scope.excludes.excludes (.ofNames (names ++ [n])) with
    | true => exact forest.lower after
    | false =>
      apply Forest.of_tree after out _ forest
      cases node with
      | file size t => exact .inr ⟨_, [], rfl, rfl, by simp, .empty⟩
      | link target t =>
        simp only [Bool.false_eq_true, if_false, meet]
        split
        · exact links spot names n at_
        · exact .inr ⟨_, [], rfl, rfl, by simp, .empty⟩
      | dir t inside =>
        refine .inr ⟨_, _, rfl, rfl, ?_, ?_⟩
        · intro some
          refine ⟨rfl, ?_⟩
          by_contra shallow
          simp [shallow] at some
        · split
          · exact deeper t inside rfl sound (Spot.pathOf_eq nonempty at_)
          · exact .empty

theorem Disk.behindLink_tree (nonempty : root.bytes ≠ []) {walk : Spot → Listing → List Entry}
    (forests : ∀ spot names l, l.Ordered → spot.path = root.join (.ofNames names) →
      Forest scope names none (walk spot l)) (at_ : spot.path = root.join (.ofNames names)) :
    IsTree scope names n (d.behindLink scope walk spot n (.ofNames (names ++ [n]))) := by
  unfold behindLink
  split
  · exact .inl rfl
  · rename_i place t inside budget resolved
    split
    · exact .inl rfl
    · refine .inr ⟨_, _, rfl, rfl, ?_, ?_⟩
      · intro some
        refine ⟨rfl, ?_⟩
        by_contra shallow
        simp [shallow] at some
      · split
        · have sound : inside.Ordered := d.ordered_at? (at?_of_resolve resolved)
          exact forests _ _ inside sound (Spot.pathOf_eq nonempty at_)
        · exact .empty
  · exact .inr ⟨_, [], rfl, rfl, by simp, .empty⟩

theorem Disk.walk_forest (nonempty : root.bytes ≠ []) {links : Nat} {l : Listing} (ordered : l.Ordered)
    (at_ : spot.path = root.join (.ofNames names)) :
    Forest scope names none (d.walk scope root links spot l) := by
  induction links generalizing spot names l with
  | zero => exact Listing.walk_forest nonempty (fun _ _ _ _ => .inl rfl) ordered at_
  | succ links ih =>
    refine Listing.walk_forest nonempty (fun spot names n at_ => ?_) ordered at_
    exact behindLink_tree nonempty (fun _ _ _ ordered at_ => ih ordered at_) at_

theorem Disk.entriesBelow_forest (nonempty : root.bytes ≠ []) {es : List Entry}
    (scanned : d.entriesBelow scope root (root.join (.ofNames names)) = .ok es) :
    Forest scope names none es := by
  unfold entriesBelow at scanned
  split at scanned
  · cases scanned
  · rename_i place t inside budget looked
    cases scanned
    have sound : inside.Ordered := d.ordered_at? (at?_of_resolve (lookup_ok looked).2.2)
    exact walk_forest nonempty sound rfl
  · cases scanned

end DirWatch
