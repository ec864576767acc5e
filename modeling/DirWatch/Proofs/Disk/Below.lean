import DirWatch.Proofs.Disk.Edits

namespace DirWatch

theorem Node.linkFree_withWritten (t : Instant) (node : Node) :
    (node.withWritten t).linkFree = node.linkFree := by
  cases node <;> rfl

namespace Disk

variable {d d' : Disk} {last : Bool} {budget : Nat} {place dir : Place} {names target p q : List Name}
  {root : Path} {one : List Step} {found : Found} {n : Name} {node : Node.Sound} {stands : Option Node}
  {t : Instant} {inside : Listing}

def Step.take (place : Place) : Step → Place
  | stay => place
  | up => place.dropLast
  | down n => place ++ [n]

def landing (path : Path) : Place := (steps path).foldl Step.take []

theorem foldl_down : (names.map Step.down).foldl Step.take place = place ++ names := by
  induction names generalizing place with
  | nil => exact (List.append_nil place).symm
  | cons n rest ih =>
    rw [List.map_cons, List.foldl_cons, ih]
    simp [Step.take]

section Plain

variable (plain : d.linkFree = true)
include plain

theorem place_of_trace {follow : Place → List Step → Lookup}
    (ended : d.trace follow budget last place one = .ok found) : found.place = one.foldl Step.take place := by
  induction one generalizing place with
  | nil =>
    unfold trace at ended
    split at ended
    · cases ended
      rfl
    · cases ended
  | cons step rest ih =>
    unfold trace at ended
    split at ended
    · rename_i t inside here
      have free : inside.linkFree = true := d.linkFree_at? plain here
      cases step with
      | stay => exact ih ended
      | up => exact ih ended
      | down n =>
        dsimp only at ended
        split at ended
        · cases ended
        · split at ended
          · cases ended
          · rename_i target written linked
            have kind := Listing.linkFree_find? free linked
            cases kind
          · exact ih ended
    · cases ended

theorem place_of_resolve (ended : d.resolve last budget place one = .ok found) :
    found.place = one.foldl Step.take place := by
  cases budget with
  | zero => exact place_of_trace plain ended
  | succ budget => exact place_of_trace plain ended

theorem place_of_lookup (looked : d.lookup root last = .ok found) : found.place = landing root :=
  place_of_resolve plain (lookup_ok looked).2.2

end Plain

theorem replaceAt_swapped (done : d.replaceAt place node = some d') : d.Swapped d' place (some node.val) ∧
    (d.linkFree = true → node.val.linkFree = true → d'.linkFree = true) := by
  unfold replaceAt at done
  split at done
  · rename_i n last
    have whole : place.dropLast ++ [n] = place := List.dropLast_append_getLast? n last
    have swapped := putAt_swapped done
    rw [whole] at swapped
    exact ⟨swapped, putAt_linkFree done⟩
  · cases done

theorem at?_of_soundAt? (here : d.soundAt? place = some node) : d.at? place = some node.val := by
  have each : ∀ (top : Node.Sound) (node : Node.Sound), Node.at?Sound place top = some node →
      top.val.at? place = some node.val := by
    clear here
    induction place with
    | nil =>
      intro top node here
      rw [Node.at?_nil]
      exact congrArg _ (congrArg Subtype.val (Option.some.inj here))
    | cons n rest ih =>
      intro above node here
      obtain ⟨top, sound⟩ := above
      cases top with
      | dir t inside =>
        simp only [Node.at?Sound] at here
        split at here
        · rename_i below found
          rw [Node.at?_dir, found]
          exact ih _ _ here
        · cases here
      | file => cases here
      | link => cases here
  exact each _ _ here

section Below

variable (plain : d.linkFree = true) (looked : d.lookup root true = .ok ⟨place, .dir t inside, budget⟩)
include plain looked

theorem found_below (below : names ≠ []) (here : d.found? (root.join (.ofNames names)) last = some found) :
    found.place = place ++ names ∧ d.at? (place ++ names) = some found.node := by
  unfold found? at here
  rw [lookup_plain last plain looked below] at here
  obtain ⟨node, stood, rfl⟩ := Option.map_eq_some_iff.mp here
  exact ⟨rfl, stood⟩

theorem parent_below (below : names ≠ []) (found : d.parent? (root.join (.ofNames names)) = some (dir, n)) :
    dir ++ [n] = place ++ names := by
  obtain ⟨front, m, rfl⟩ := (List.eq_nil_or_concat' names).resolve_left below
  have nonempty := (lookup_ok looked).1
  have stem := place_of_resolve plain (resolve_stem (lookup_ok looked).2.2)
  unfold parent? at found
  split at found
  · cases found
  · have order : (steps (root.join (.ofNames (front ++ [m])))).reverse.dropWhile (· == .stay) =
        Step.down m :: (root.stem.map Step.ofPiece ++ front.map Step.down).reverse := by
      rw [steps_join nonempty below]
      simp [show (Step.down m == Step.stay) = false from rfl]
    rw [order] at found
    dsimp only at found
    rw [List.reverse_reverse] at found
    split at found
    · rename_i upper resolved
      split at found
      · cases found
        have way := place_of_resolve plain resolved
        rw [List.foldl_append, foldl_down, ← stem] at way
        rw [way, List.append_assoc]
      · cases found
    · cases found

theorem create_below (below : names ≠ []) (done : d.create (root.join (.ofNames names)) node = some d') :
    d.at? (place ++ names) = none ∧ d.Swapped d' (place ++ names) (some node.val) ∧
      (node.val.linkFree = true → d'.linkFree = true) := by
  unfold create at done
  cases upper : d.parent? (root.join (.ofNames names)) with
  | none =>
    rw [upper] at done
    cases done
  | some parent =>
    obtain ⟨dir, n⟩ := parent
    have whole := parent_below plain looked below upper
    rw [upper] at done
    simp only [Option.bind_eq_bind, Option.bind_some] at done
    split at done
    · cases done
    · rename_i absent
      rw [← whole]
      exact ⟨by simpa using absent, putAt_swapped done, putAt_linkFree done plain⟩

theorem makeFile_below {size : UInt64} {written : Instant} (below : names ≠ [])
    (done : d.apply (.makeFile (root.join (.ofNames names)) size written) = some d') :
    (∀ t l, d.at? (place ++ names) ≠ some (.dir t l)) ∧
      d.Swapped d' (place ++ names) (some (.file size written)) ∧ d'.linkFree = true := by
  have seen := lookup_plain true plain looked below
  unfold apply at done
  dsimp only at done
  split at done
  · rename_i there n w b stood
    rw [stood] at seen
    obtain ⟨node, here, same⟩ := Option.map_eq_some_iff.mp seen.symm
    cases same
    obtain ⟨swapped, free⟩ := replaceAt_swapped done
    refine ⟨fun t l dir => ?_, swapped, free plain rfl⟩
    rw [here] at dir
    cases dir
  · cases done
  · rename_i e stood
    rw [stood] at seen
    have absent := Option.map_eq_none_iff.mp seen.symm
    obtain ⟨_, swapped, free⟩ := create_below plain looked below done
    refine ⟨fun t l dir => ?_, swapped, free rfl⟩
    rw [absent] at dir
    cases dir

theorem touch_below {written : Instant} (below : names ≠ [])
    (done : d.apply (.touch (root.join (.ofNames names)) written) = some d') :
    ∃ node, d.at? (place ++ names) = some node ∧
      d.Swapped d' (place ++ names) (some (node.withWritten written)) ∧ d'.linkFree = true := by
  unfold apply touch at done
  obtain ⟨found, here, done⟩ := Option.bind_eq_some_iff.mp done
  obtain ⟨at_, stood⟩ := found_below plain looked below here
  have deep : found.place.isEmpty = false := by
    rw [at_]
    simp [below]
  rw [deep] at done
  obtain ⟨node, sound, done⟩ := Option.bind_eq_some_iff.mp done
  rw [at_] at sound done
  have stands := at?_of_soundAt? sound
  obtain ⟨swapped, free⟩ := replaceAt_swapped done
  refine ⟨node.val, stands, swapped, free plain ?_⟩
  exact (Node.linkFree_withWritten written node.val).trans (linkFree_at? plain stands)

theorem remove_below (below : names ≠ []) (done : d.apply (.remove (root.join (.ofNames names))) = some d') :
    d.Swapped d' (place ++ names) none ∧ d'.linkFree = true := by
  unfold apply Disk.remove at done
  obtain ⟨found, here, done⟩ := Option.bind_eq_some_iff.mp done
  obtain ⟨at_, _⟩ := found_below plain looked below here
  obtain ⟨n, last, done⟩ := Option.bind_eq_some_iff.mp done
  have whole : found.place.dropLast ++ [n] = found.place := List.dropLast_append_getLast? n last
  have swapped := dropAt_swapped done
  rw [whole, at_] at swapped
  exact ⟨swapped, dropAt_linkFree done plain⟩

theorem move_below (below : names ≠ []) (deep : target ≠ [])
    (done : d.apply (.move (root.join (.ofNames names)) (root.join (.ofNames target))) = some d') :
    d'.linkFree = true ∧ (names = target ∧ d' = d ∨ ∃ node between, d.at? (place ++ names) = some node ∧
      yields node (d.at? (place ++ target)) = true ∧ d.Swapped between (place ++ names) none ∧
      between.Swapped d' (place ++ target) (some node)) := by
  unfold apply move at done
  obtain ⟨found, here, done⟩ := Option.bind_eq_some_iff.mp done
  obtain ⟨at_, _⟩ := found_below plain looked below here
  obtain ⟨n, last, done⟩ := Option.bind_eq_some_iff.mp done
  obtain ⟨node, sound, done⟩ := Option.bind_eq_some_iff.mp done
  obtain ⟨⟨dir, name⟩, upper, done⟩ := Option.bind_eq_some_iff.mp done
  have whole := parent_below plain looked deep upper
  have leaf : found.place.dropLast ++ [n] = found.place := List.dropLast_append_getLast? n last
  dsimp only at done
  rw [whole] at done
  split at done
  · rename_i same
    cases done
    rw [at_] at same
    exact ⟨plain, .inl ⟨List.append_cancel_left same, rfl⟩⟩
  · split at done
    · cases done
    · split at done
      · rename_i gives
        obtain ⟨between, dropped, put⟩ := Option.bind_eq_some_iff.mp done
        rw [at_] at sound leaf dropped
        have stands := at?_of_soundAt? sound
        have away := dropAt_swapped dropped
        have arrived := putAt_swapped put
        rw [leaf] at away
        rw [whole] at arrived
        refine ⟨putAt_linkFree put (dropAt_linkFree dropped plain) (linkFree_at? plain stands), .inr ?_⟩
        exact ⟨node.val, between, stands, gives, away, arrived⟩
      · cases done

end Below

-- The entry of what stands at the names below a place.
def sight (d : Disk) (place : Place) (names : List Name) : Option Entry :=
  (d.at? (place ++ names)).map (.ofNode (.ofNames names))

theorem Swapped.sight_here (swapped : d.Swapped d' (place ++ p) stands) (more : List Name) :
    d'.sight place (p ++ more) = (stands.bind (Node.at? more)).map (.ofNode (.ofNames (p ++ more))) := by
  unfold sight
  rw [← List.append_assoc]
  exact congrArg _ (swapped.here more)

theorem Swapped.sight_other (swapped : d.Swapped d' (place ++ p) stands) (outside : ¬p <+: q) :
    d'.sight place q = d.sight place q :=
  swapped.other (place ++ q) _ fun up => outside ((List.prefix_append_right_inj place).mp up)

end Disk

end DirWatch
