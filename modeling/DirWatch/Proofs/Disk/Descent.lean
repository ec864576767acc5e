import DirWatch.Proofs.Disk.Lookup

namespace DirWatch

variable {d : Disk} {root p : Path} {names above : List Name} {n : Name} {last : Bool} {place : Place}
  {budget : Nat} {t u : Instant} {inside : Listing} {node : Node} {f : Found} {target : Path} {one : List Step}

namespace Disk

theorem contains_join_of_nul (nonempty : root.bytes ≠ []) (relative : p.isAbsolute = false)
    (nul : root.bytes.contains 0 = true) : (root.join p).bytes.contains 0 = true := by
  have inside : (0 : UInt8) ∈ root.bytes := by simpa using nul
  by_cases slash : root.bytes.getLast? = some 47
  · rw [Path.join_of_slash slash relative]
    simp [inside]
  · rw [Path.join_of_plain nonempty slash relative]
    simp [inside]

-- The converse of `resolve_stem`: what stands before a last slash is a directory, if anything follows.
theorem isDir_of_stem (nonempty : root.bytes ≠ []) (plain : root.bytes.contains 0 = false)
    (stem : d.resolve true linkBudget [] (root.stem.map Step.ofPiece) = .ok ⟨place, .dir t inside, budget⟩) :
    d.isDir root = true := by
  have some : root.bytes.isEmpty = false := by simpa using nonempty
  apply isDir_iff.mpr
  refine ⟨place, t, inside, budget, ?_⟩
  unfold lookup
  rw [plain, some]
  change d.resolve true linkBudget [] (steps root) = _
  rcases Path.split_eq_stem root with same | more
  · rw [steps, same, stem]
  · rw [steps, more, List.map_append, resolve_append (by simp) rfl, stem]
    exact resolve_stay (at?_of_resolve stem)

theorem resolve_leaf {node : Node} {rest : List Step} {step : Step} (here : d.at? place = some node)
    (leaf : node.isDir = false) : d.resolve last budget place (step :: rest) = .error .notDirectory := by
  cases node with
  | dir => cases leaf
  | file => cases budget <;> simp only [resolve, trace, here]
  | link => cases budget <;> simp only [resolve, trace, here]

theorem lookup_below_leaf (leaf : d.isDir root = false) (nonempty : root.bytes ≠ []) (below : names ≠ []) :
    (d.lookup (root.join (.ofNames names)) last).toOption = none := by
  have relative := Path.isAbsolute_ofNames names
  have some : (root.join (.ofNames names)).bytes.isEmpty = false := by
    simpa using join_ne_nil nonempty relative
  obtain ⟨n, rest, rfl⟩ := List.exists_cons_of_ne_nil below
  cases nul : root.bytes.contains 0 with
  | true =>
    unfold lookup
    rw [contains_join_of_nul nonempty relative nul]
    rfl
  | false =>
    unfold lookup
    split
    · rfl
    · rw [some, steps_join nonempty below, resolve_append (by simp) rfl]
      cases stem : d.resolve true linkBudget [] (root.stem.map Step.ofPiece) with
      | error e => rfl
      | ok f =>
        have stuck : f.node.isDir = false := by
          obtain ⟨place, node, budget⟩ := f
          cases node with
          | dir t inside =>
            have there := isDir_of_stem nonempty nul stem
            rw [leaf] at there
            cases there
          | file => rfl
          | link => rfl
        have ended : d.resolve last f.budget f.place ((n :: rest).map .down) = .error .notDirectory :=
          resolve_leaf (at?_of_resolve stem) stuck
        change (d.resolve last f.budget f.place ((n :: rest).map .down)).toOption = none
        rw [ended]
        rfl

theorem isDir_above (nonempty : root.bytes ≠ []) (up : above <+: names) (proper : above ≠ names)
    (found : d.lookup (root.join (.ofNames names)) last = .ok f) :
    d.isDir (root.join (.ofNames above)) = true := by
  induction names using List.reverseRecOn generalizing last f with
  | nil => exact absurd (List.prefix_nil.mp up) proper
  | append_singleton names n ih =>
    have here : d.isDir (root.join (.ofNames names)) = true := by
      by_contra other
      have based := join_ne_nil nonempty (Path.isAbsolute_ofNames names)
      have stuck : (d.lookup ((root.join (.ofNames names)).join (.ofNames [n])) last).toOption = none :=
        lookup_below_leaf (by simpa using other) based (by simp)
      rw [show Path.ofNames [n] = .ofName n from rfl, Path.join_join nonempty, found] at stuck
      cases stuck
    rcases List.prefix_concat_iff.mp up with same | up
    · exact absurd same proper
    · by_cases same : above = names
      · exact same ▸ here
      · obtain ⟨place, t, inside, budget, looked⟩ := isDir_iff.mp here
        exact ih up same looked

section Child

variable (here : d.at? place = some (.dir t inside)) (listed : inside.find? n = some node)
include here listed

theorem storable_child : n.isStorable = true := storable_at? (at?_down here listed) n (by simp)

theorem short_child : ¬n.bytes.length > 255 := by
  have storable := storable_child here listed
  simp only [Name.isStorable, Bool.and_eq_true, decide_eq_true_eq] at storable
  omega

theorem resolve_child (plain : last = false ∨ ∀ target u, node ≠ .link target u) :
    d.resolve last budget place [.down n] = .ok ⟨place ++ [n], node, budget⟩ := by
  have there := at?_down here listed
  have short := short_child here listed
  have ended (follow : Place → List Step → Lookup) :
      d.trace follow budget last place [.down n] = .ok ⟨place ++ [n], node, budget⟩ := by
    cases node with
    | link target u =>
      have stops : last = false := plain.resolve_right fun other => other target u rfl
      simp [trace, here, listed, short, stops]
    | file => simp [trace, here, listed, short, there]
    | dir => simp [trace, here, listed, short, there]
  cases budget with
  | zero => exact ended _
  | succ budget => exact ended _

end Child

theorem listed_of_resolve (here : d.at? place = some (.dir t inside))
    (found : d.resolve last budget place [.down n] = .ok f) : ∃ node, inside.find? n = some node := by
  cases listed : inside.find? n with
  | some node => exact ⟨node, rfl⟩
  | none =>
    have lost (follow : Place → List Step → Lookup) :
        (d.trace follow budget last place [.down n]).toOption = none := by
      simp only [trace, here, listed]
      split <;> rfl
    have missing : (d.resolve last budget place [.down n]).toOption = none := by
      cases budget with
      | zero => exact lost _
      | succ budget => exact lost _
    rw [found] at missing
    cases missing

theorem trace_budget {follow : Place → List Step → Lookup}
    (links : ∀ place steps f, follow place steps = .ok f → f.budget ≤ budget)
    (ended : d.trace follow budget last place one = .ok f) : f.budget ≤ budget := by
  induction one generalizing place with
  | nil =>
    unfold trace at ended
    split at ended
    · cases ended
      exact Nat.le_refl _
    · cases ended
  | cons step rest ih =>
    unfold trace at ended
    split at ended
    · cases step with
      | stay => exact ih ended
      | up => exact ih ended
      | down n =>
        dsimp only at ended
        split at ended
        · cases ended
        · split at ended
          · cases ended
          · split at ended
            · cases ended
              exact Nat.le_refl _
            · exact links _ _ _ ended
          · exact ih ended
    · cases ended

theorem resolve_budget (ended : d.resolve last budget place one = .ok f) : f.budget ≤ budget := by
  induction budget generalizing place one f with
  | zero => exact trace_budget (fun _ _ _ failed => by cases failed) ended
  | succ budget ih =>
    exact trace_budget (fun _ _ _ later => Nat.le_succ_of_le (ih later)) ended

theorem resolve_link (here : d.at? place = some (.dir t inside)) (listed : inside.find? n = some (.link target u))
    (ended : d.resolve true budget place [.down n] = .ok f) : f.budget < budget := by
  have short := short_child here listed
  have follows (follow : Place → List Step → Lookup) : d.trace follow budget true place [.down n] =
      follow (if target.isAbsolute then [] else place) (steps target ++ []) := by
    simp [trace, here, listed, short]
  cases budget with
  | zero =>
    have failed : d.resolve true 0 place [.down n] = .error .tooManyLinks := follows _
    rw [ended] at failed
    cases failed
  | succ budget =>
    have went : d.resolve true (budget + 1) place [.down n] = d.resolve true budget _ _ := follows _
    rw [went] at ended
    exact Nat.lt_succ_of_le (resolve_budget ended)

theorem lookup_child (nonempty : root.bytes ≠ [])
    (looked : d.lookup (root.join (.ofNames names)) true = .ok ⟨place, .dir t inside, budget⟩) :
    d.lookup (root.join (.ofNames (names ++ [n]))) last =
      if n.bytes.contains 0 then .error .nulByte else d.resolve last budget place [.down n] := by
  have below := @lookup_join d last budget place [n] _ t inside looked (by simp)
  rwa [show Path.ofNames [n] = .ofName n from rfl, Path.join_join nonempty] at below

theorem lookup_above (nonempty : root.bytes ≠ []) (top : above ≠ []) (up : above <+: names) (proper : above ≠ names)
    (found : d.lookup (root.join (.ofNames names)) last = .ok f) (follow : Bool) :
    ∃ g, d.lookup (root.join (.ofNames above)) follow = .ok g := by
  obtain ⟨_, _, _, _, led⟩ := isDir_iff.mp (isDir_above nonempty up proper found)
  cases follow with
  | true => exact ⟨_, led⟩
  | false =>
    obtain ⟨front, n, rfl⟩ := (List.eq_nil_or_concat' above).resolve_left top
    obtain ⟨place, t, inside, budget, looked⟩ :=
      isDir_iff.mp (isDir_above nonempty (List.prefix_append front [n]) (by simp) led)
    rw [lookup_child nonempty looked] at led
    split at led
    · cases led
    · rename_i plain
      have here := at?_of_lookup looked
      obtain ⟨node, listed⟩ := listed_of_resolve here led
      refine ⟨⟨place ++ [n], node, budget⟩, ?_⟩
      rw [lookup_child nonempty looked, if_neg plain]
      exact resolve_child here listed (.inl rfl)

end Disk

end DirWatch
