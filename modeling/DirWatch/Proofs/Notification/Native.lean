import DirWatch.Notification
import DirWatch.Proofs.Path.Rest
import Mathlib.Data.List.Forall2

namespace DirWatch

def NativeEvent.told (event : NativeEvent) : List Path :=
  match event.kind with
  | .renameBoth => event.paths.take 2
  | _ => event.paths

namespace Record

variable {root q : Path} {r : Record} {names : List Name} {event : NativeEvent} {stands : Path → Bool}

-- What a record says of the path that it comes from.
structure Translates (root q : Path) (r : Record) : Prop where
  rest : q.components = root.components ++ r.path.components
  accepted : r.path.names?.isSome = true ↔ ∀ c ∈ r.path.components, ∃ n, c = .name n
  place : ∀ names, r.path.names? = some names → (Path.ofNames names).components = r.path.components ∧
    ((Path.ofNames names).bytes = [] ↔ q.components = root.components) ∧
    (root.join (.ofNames names)).components = q.components
  upward : .up ∈ r.path.components → r.path.names? = none

theorem translates (absolute : root.isAbsolute = true) (left : q.relativeTo? root = some r.path) :
    Translates root q r := by
  have rest := Path.components_of_relativeTo? left
  obtain ⟨parts, first⟩ : ∃ parts, root.components = .root :: parts := by
    simp [Path.components, absolute]
  have markless : .here ∉ r.path.components := by
    intro found
    have later : Component.here ∈ q.components.tail := by
      rw [rest, first, List.cons_append, List.tail_cons]
      exact List.mem_append_right parts found
    rcases Path.names_or_up_of_tail later with same | ⟨n, same⟩ <;> cases same
  have accepted := Path.isSome_names?_of_markless markless
  refine ⟨rest, accepted, fun names taken => ?_, fun up => ?_⟩
  · have same := (Path.names?_of_markless markless).mp taken
    refine ⟨by rw [Path.components_ofNames, same], ?_, by rw [Path.components_join, rest, same]⟩
    rw [Path.bytes_ofNames_eq_nil, rest, same]
    simp
  · by_contra some
    obtain ⟨n, same⟩ := accepted.mp (Option.isSome_iff_ne_none.mpr some) _ up
    cases same

theorem forall₂_below (action : Path → Action) (paths : List Path) :
    List.Forall₂ (fun q r => q.relativeTo? root = some r.path) (paths.filter fun q => root.components <+: q.components)
      (paths.filterMap fun q => below? root (action q) q) := by
  induction paths with
  | nil => exact .nil
  | cons q paths ih =>
    by_cases inside : root.components <+: q.components
    · obtain ⟨rest, left⟩ := Option.isSome_iff_exists.mp (Path.isSome_relativeTo?.mpr inside)
      simpa [inside, below?, left] using ih
    · have outside : q.relativeTo? root = none := by
        rwa [← Option.not_isSome_iff_eq_none, Path.isSome_relativeTo?]
      simpa [inside, below?, outside] using ih

theorem forall₂_ofNative (root : Path) (seen : event.kind ≠ .access) :
    List.Forall₂ (fun q r => q.relativeTo? root = some r.path)
      (event.told.filter fun q => root.components <+: q.components) (ofNative stands root event) := by
  obtain ⟨kind, paths⟩ := event
  cases kind with
  | access => exact absurd rfl seen
  | create => exact forall₂_below (fun _ => .added) paths
  | remove => exact forall₂_below (fun _ => .removed) paths
  | renameFrom => exact forall₂_below (fun _ => .renamedFrom) paths
  | renameTo => exact forall₂_below (fun _ => .renamedTo) paths
  | renameBoth =>
    have ends : paths.take 2 = paths.take 1 ++ (paths.drop 1).take 1 := by rw [← List.take_add]
    simp only [NativeEvent.told, ends, List.filter_append]
    exact List.rel_append (forall₂_below (fun _ => .renamedFrom) _) (forall₂_below (fun _ => .renamedTo) _)
  | renameUnclear => exact forall₂_below (fun q => if stands q then .renamedTo else .renamedFrom) paths
  | change => exact forall₂_below (fun _ => .modified) paths

-- Whatever spelling the paths of an event have: those below an absolute root give one record each, in
-- their order, and no others do. A record is taken as a place below the root exactly if names are left,
-- and joined to the root it leads to where the event was.
theorem native_paths_translated (absolute : root.isAbsolute = true) (seen : event.kind ≠ .access) :
    List.Forall₂ (Translates root) (event.told.filter fun q => root.components <+: q.components)
      (ofNative stands root event) ∧
    (∀ p q : Path, p.components = q.components → p.names? = q.names?) ∧
    (∀ (p : Path) (names : List Name), p.names? = some names ↔
      p.components.filter (· ≠ .here) = names.map .name) ∧
    (∀ (p : Path) (names : List Name), p.names? = some names →
      (Path.ofNames names).components = names.map .name ∧ (Path.ofNames names).names? = some names ∧
      ∀ base : Path, (base.join (.ofNames names)).startsWith base = true) := by
  refine ⟨(forall₂_ofNative root seen).imp fun _ _ left => translates absolute left, fun p q same => ?_,
    fun _ _ => Path.names?_eq_some, fun p names _ => ?_⟩
  · unfold Path.names?
    rw [same]
  refine ⟨Path.components_ofNames names, Path.names?_ofNames names, fun base => ?_⟩
  rw [Path.startsWith_iff, Path.components_join]
  exact List.prefix_append _ _

theorem native_paths_translated_spellings :
    let root : Path := .ofString "/w//."
    let event : NativeEvent := ⟨.renameUnclear,
      [.ofString "//w/./a//b/.", .ofString "/wx/a", .ofString "/w/a/../../x", .ofString "w/a", .ofString "/w/"]⟩
    let below : List Path := [.ofString "//w/./a//b/.", .ofString "/w/a/../../x", .ofString "/w/"]
    let p : Path := .ofString "./a//b/"
    let q : Path := .ofString "./a/./b"
    root.isAbsolute = true ∧ event.kind ≠ .access ∧ p.components = q.components ∧ p.names?.isSome = true ∧
      List.Forall₂ (Translates root) below (ofNative (fun _ => false) root event) ∧
      (ofNative (fun _ => false) root event).map (fun r => r.path.names?.isSome) = [true, false, true] ∧
      p.names? = q.names? ∧ ∀ names, p.names? = some names → (Path.ofNames names).names? = some names := by
  intro root event below p q
  have absolute : root.isAbsolute = true := by decide +kernel
  have same : p.components = q.components := by decide +kernel
  have found : event.told.filter (fun q => root.components <+: q.components) = below := by decide +kernel
  obtain ⟨records, spelled, _, kept⟩ :=
    @native_paths_translated root event (fun _ => false) absolute (by decide)
  rw [found] at records
  exact ⟨absolute, by decide, same, by decide +kernel, records, by decide +kernel, spelled p q same,
    fun names taken => (kept p names taken).2.1⟩

end Record

end DirWatch
