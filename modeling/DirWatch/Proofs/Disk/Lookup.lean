import DirWatch.Proofs.Disk.Listing
import DirWatch.Proofs.Path.Join

namespace DirWatch

namespace Disk

variable {d : Disk} {last : Bool} {budget : Nat} {place : Place} {names : List Name}
  {one two : List Step} {found : Found} {root : Path}

-- The steps after the first part are taken from where it ended.
theorem trace_append {follow follow' : Place → List Step → Lookup}
    (more : two ≠ []) (next : Found → Lookup)
    (stop : ∀ place node, d.at? place = some node →
      d.trace follow' budget last place two = next ⟨place, node, budget⟩)
    (links : ∀ place, (d.at? place).isSome = true → ∀ target rest,
      follow' (if Path.isAbsolute target then [] else place) (steps target ++ (rest ++ two)) =
        (follow (if Path.isAbsolute target then [] else place) (steps target ++ rest)).bind next)
    (here : (d.at? place).isSome = true) :
    d.trace follow' budget last place (one ++ two) = (d.trace follow budget true place one).bind next := by
  induction one generalizing place with
  | nil =>
    obtain ⟨node, found⟩ := Option.isSome_iff_exists.mp here
    rw [List.nil_append, stop place node found]
    unfold trace
    rw [found]
    rfl
  | cons step rest ih =>
    obtain ⟨node, found⟩ := Option.isSome_iff_exists.mp here
    rw [List.cons_append]
    unfold trace
    rw [found]
    cases node with
    | file => rfl
    | link => rfl
    | dir t inside =>
      cases step with
      | stay => exact ih here
      | up => exact ih (at?_dropLast here)
      | down n =>
        dsimp only
        split
        · rfl
        · have longer : (rest ++ two).isEmpty = false := by simp [more]
          cases below : inside.find? n with
          | none => rfl
          | some node =>
            have deeper : (d.at? (place ++ [n])).isSome = true := by
              rw [at?_down found below]
              rfl
            cases node with
            | file => exact ih deeper
            | dir => exact ih deeper
            | link target t =>
              simp only [longer, Bool.false_and, Bool.not_true, Bool.and_false, Bool.false_eq_true,
                if_false]
              exact links place here target rest

theorem resolve_append (more : two ≠ []) (here : (d.at? place).isSome = true) :
    d.resolve last budget place (one ++ two) =
      (d.resolve true budget place one).bind fun f => d.resolve last f.budget f.place two := by
  induction budget generalizing place one with
  | zero =>
    change d.trace (fun _ _ => .error .tooManyLinks) 0 last place (one ++ two) =
      (d.trace (fun _ _ => .error .tooManyLinks) 0 true place one).bind _
    refine trace_append more _ (fun _ _ _ => rfl) ?_ here
    intro place _ target rest
    rfl
  | succ budget ih =>
    change d.trace (d.resolve last budget) (budget + 1) last place (one ++ two) =
      (d.trace (d.resolve true budget) (budget + 1) true place one).bind _
    refine trace_append more _ (fun _ _ _ => rfl) ?_ here
    intro place there target rest
    rw [← List.append_assoc]
    apply ih
    split
    · rfl
    · exact there

theorem at?_of_trace {follow : Place → List Step → Lookup}
    (links : ∀ place steps found, follow place steps = .ok found → d.at? found.place = some found.node)
    (ended : d.trace follow budget true place one = .ok found) :
    d.at? found.place = some found.node := by
  induction one generalizing place with
  | nil =>
    unfold trace at ended
    split at ended
    · rename_i node here
      cases ended
      exact here
    · cases ended
  | cons step rest ih =>
    unfold trace at ended
    split at ended
    · cases step with
      | stay => exact ih ended
      | up => exact ih ended
      | down n =>
        dsimp only at ended
        split at ended
        · cases ended
        · split at ended
          · cases ended
          · simp only [Bool.not_true, Bool.and_false, Bool.false_eq_true, if_false] at ended
            exact links _ _ _ ended
          · exact ih ended
    · cases ended

theorem at?_of_resolve (ended : d.resolve true budget place one = .ok found) :
    d.at? found.place = some found.node := by
  induction budget generalizing place one found with
  | zero => exact at?_of_trace (fun _ _ _ failed => by cases failed) ended
  | succ budget ih => exact at?_of_trace (fun _ _ _ later => ih later) ended

theorem ofPiece_bytes (n : Name) : Step.ofPiece n.bytes = .down n := by
  simp [Step.ofPiece, n.bytes_ne_dots, n.ofBytes?_bytes]

theorem map_ofPiece_bytes (names : List Name) :
    (names.map Name.bytes).map Step.ofPiece = names.map .down := by
  rw [List.map_map]
  exact List.map_congr_left fun n _ => ofPiece_bytes n

theorem steps_join (nonempty : root.bytes ≠ []) (below : names ≠ []) :
    steps (root.join (.ofNames names)) = root.stem.map Step.ofPiece ++ names.map .down := by
  unfold steps
  rw [Path.split_join nonempty (Path.isAbsolute_ofNames names), Path.split_ofNames below,
    List.map_append, map_ofPiece_bytes]

theorem steps_join_empty (nonempty : root.bytes ≠ []) :
    steps (root.join .empty) = root.stem.map Step.ofPiece ++ [.stay] := by
  unfold steps
  rw [Path.split_join nonempty rfl, List.map_append]
  rfl

theorem resolve_stay {t : Instant} {inside : Listing} (here : d.at? place = some (.dir t inside)) :
    d.resolve true budget place [.stay] = .ok ⟨place, .dir t inside, budget⟩ := by
  have ended : ∀ follow : Place → List Step → Lookup,
      d.trace follow budget true place [.stay] = .ok ⟨place, .dir t inside, budget⟩ := by
    intro follow
    simp only [trace, here]
  cases budget with
  | zero => exact ended _
  | succ budget => exact ended _

theorem resolve_stem (looked : d.resolve true budget [] (steps root) = .ok found) :
    d.resolve true budget [] (root.stem.map Step.ofPiece) = .ok found := by
  rcases Path.split_eq_stem root with same | more
  · rwa [steps, same] at looked
  · rw [steps, more, List.map_append, resolve_append (by simp) rfl] at looked
    cases upper : d.resolve true budget [] (root.stem.map Step.ofPiece) with
    | error e =>
      rw [upper] at looked
      cases looked
    | ok f =>
      rw [upper] at looked
      have there := at?_of_resolve upper
      have looked : d.resolve true f.budget f.place [.stay] = .ok found := looked
      obtain ⟨place, node, left⟩ := f
      cases node with
      | dir t inside =>
        rw [resolve_stay there] at looked
        exact looked
      | file => cases left <;> simp [resolve, trace, there] at looked
      | link => cases left <;> simp [resolve, trace, there] at looked

theorem isDir_iff : d.isDir root = true ↔
    ∃ place t inside budget, d.lookup root true = .ok ⟨place, .dir t inside, budget⟩ := by
  unfold isDir
  constructor
  · intro dir
    split at dir
    · rename_i found looked
      obtain ⟨place, node, budget⟩ := found
      cases node with
      | dir t inside => exact ⟨place, t, inside, budget, looked⟩
      | file => cases dir
      | link => cases dir
    · cases dir
  · intro given
    obtain ⟨place, t, inside, budget, looked⟩ := given
    rw [looked]
    rfl

theorem lookup_ok (looked : d.lookup root last = .ok found) : root.bytes ≠ [] ∧
    root.bytes.contains 0 = false ∧ d.resolve last linkBudget [] (steps root) = .ok found := by
  unfold lookup at looked
  split at looked
  · cases looked
  · rename_i nul
    split at looked
    · cases looked
    · rename_i empty
      exact ⟨by simpa using empty, by simpa using nul, looked⟩

theorem contains_join (nonempty : root.bytes ≠ []) {p : Path} (relative : p.isAbsolute = false)
    (plain : root.bytes.contains 0 = false) : (root.join p).bytes.contains 0 = p.bytes.contains 0 := by
  have plain : (0 : UInt8) ∉ root.bytes := by simpa using plain
  by_cases slash : root.bytes.getLast? = some 47
  · rw [Path.join_of_slash slash relative]
    simp [plain]
  · rw [Path.join_of_plain nonempty slash relative]
    simp [plain]

theorem join_ne_nil (nonempty : root.bytes ≠ []) {p : Path} (relative : p.isAbsolute = false) :
    (root.join p).bytes ≠ [] := by
  by_cases slash : root.bytes.getLast? = some 47
  · rw [Path.join_of_slash slash relative]
    simp [nonempty]
  · rw [Path.join_of_plain nonempty slash relative]
    simp

section Below

variable {t : Instant} {inside : Listing}
  (looked : d.lookup root true = .ok ⟨place, .dir t inside, budget⟩)
include looked

theorem at?_of_lookup : d.at? place = some (.dir t inside) := at?_of_resolve (lookup_ok looked).2.2

theorem lookup_join_empty : d.lookup (root.join .empty) true = .ok ⟨place, .dir t inside, budget⟩ := by
  obtain ⟨nonempty, plain, resolved⟩ := lookup_ok looked
  have nul := contains_join nonempty (p := .empty) rfl plain
  have stem := resolve_stem resolved
  have here := at?_of_lookup looked
  unfold lookup
  rw [nul, steps_join_empty nonempty, resolve_append (by simp) rfl, stem]
  have some : (root.join .empty).bytes.isEmpty = false := by
    simpa using join_ne_nil nonempty (p := .empty) rfl
  rw [some]
  exact resolve_stay here

-- From the root on, the names of the path below it are what is left to take.
theorem lookup_join (below : names ≠ []) : d.lookup (root.join (.ofNames names)) last =
    if (Path.ofNames names).bytes.contains 0 then .error .nulByte
    else d.resolve last budget place (names.map .down) := by
  obtain ⟨nonempty, plain, resolved⟩ := lookup_ok looked
  have nul := contains_join nonempty (Path.isAbsolute_ofNames names) plain
  have stem := resolve_stem resolved
  have more : names.map Step.down ≠ [] := by simpa using below
  unfold lookup
  rw [nul, steps_join nonempty below, resolve_append more rfl, stem]
  have some : (root.join (.ofNames names)).bytes.isEmpty = false := by
    simpa using join_ne_nil nonempty (Path.isAbsolute_ofNames names)
  rw [some]
  rfl

end Below

section Plain

variable (plain : d.linkFree = true)
include plain

theorem trace_down (follow : Place → List Step → Lookup) :
    (d.trace follow budget last place (names.map .down)).toOption =
      (d.at? (place ++ names)).map fun node => ⟨place ++ names, node, budget⟩ := by
  induction names generalizing place with
  | nil =>
    rw [List.append_nil, List.map_nil]
    unfold trace
    cases d.at? place <;> rfl
  | cons n rest ih =>
    have deeper : place ++ [n] ++ rest = place ++ n :: rest := by simp
    rw [List.map_cons]
    unfold trace
    cases here : d.at? place with
    | none =>
      rw [at?_append, here]
      rfl
    | some node =>
      cases node with
      | file => rw [at?_append, here]; rfl
      | link => rw [at?_append, here]; rfl
      | dir t inside =>
        cases found : inside.find? n with
        | none =>
          rw [at?_append, here, Option.bind_some, Node.at?_dir, found]
          simp only [found]
          split <;> rfl
        | some node =>
          have there := at?_down here found
          have storable := storable_at? there n (by simp)
          have short : ¬n.bytes.length > 255 := by
            simp only [Name.isStorable, Bool.and_eq_true, decide_eq_true_eq] at storable
            omega
          have kind := linkFree_at? plain there
          simp only [short, if_false, found]
          rw [← deeper]
          cases node with
          | file => exact ih
          | dir => exact ih
          | link => cases kind

theorem resolve_down : (d.resolve last budget place (names.map .down)).toOption =
    (d.at? (place ++ names)).map fun node => ⟨place ++ names, node, budget⟩ := by
  cases budget with
  | zero => exact trace_down plain _
  | succ budget => exact trace_down plain _

end Plain

theorem mem_unsplit {b : UInt8} {pieces : List Bytes} (found : b ∈ Path.unsplit pieces) :
    b = 47 ∨ ∃ piece ∈ pieces, b ∈ piece := by
  induction pieces with
  | nil => cases found
  | cons piece rest ih =>
    cases rest with
    | nil => exact .inr ⟨piece, List.mem_cons_self, found⟩
    | cons second others =>
      rw [Path.unsplit_cons (by simp), List.mem_append, List.mem_cons] at found
      rcases found with here | slash | later
      · exact .inr ⟨piece, List.mem_cons_self, here⟩
      · exact .inl slash
      · rcases ih later with slash | ⟨p, listed, inside⟩
        · exact .inl slash
        · exact .inr ⟨p, List.mem_cons_of_mem _ listed, inside⟩

-- No stored name holds a zero byte, so nothing stands where such a path leads.
theorem at?_of_nul (nul : (Path.ofNames names).bytes.contains 0 = true) :
    d.at? (place ++ names) = none := by
  by_contra present
  obtain ⟨node, found⟩ := Option.ne_none_iff_exists'.mp present
  rcases mem_unsplit (List.contains_iff_mem.mp nul) with slash | ⟨piece, listed, inside⟩
  · cases slash
  · obtain ⟨n, member, rfl⟩ := List.mem_map.mp listed
    have storable := storable_at? found n (List.mem_append_right _ member)
    simp [Name.isStorable, inside] at storable

theorem lookup_plain (last : Bool) {t : Instant} {inside : Listing} (plain : d.linkFree = true)
    (looked : d.lookup root true = .ok ⟨place, .dir t inside, budget⟩) (below : names ≠ []) :
    (d.lookup (root.join (.ofNames names)) last).toOption =
      (d.at? (place ++ names)).map fun node => ⟨place ++ names, node, budget⟩ := by
  rw [lookup_join looked below]
  split
  · rename_i nul
    rw [at?_of_nul nul]
    rfl
  · exact resolve_down plain

end Disk

end DirWatch
