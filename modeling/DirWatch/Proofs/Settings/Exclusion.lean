import DirWatch.Settings
import DirWatch.Proofs.Path.Names
import DirWatch.Proofs.Text.Utf8
import DirWatch.Proofs.Text.Wildcard

namespace DirWatch

variable {patterns others : List String} {path p q : Path}

def Path.shown (p : Path) : List Char := ['/'].intercalate (p.components.map fun c => Utf8.lossy c.bytes)

theorem Path.lossy_unsplit (pieces : List Bytes) :
    Utf8.lossy (unsplit pieces) = ['/'].intercalate (pieces.map Utf8.lossy) := by
  induction pieces with
  | nil => rfl
  | cons piece rest ih =>
    cases rest with
    | nil => simp [unsplit]
    | cons second others =>
      have slash : Char.ofNat (47 : UInt8).toNat = '/' := rfl
      rw [unsplit_cons (List.cons_ne_nil second others), Utf8.lossy_append_plain (by decide), ih, slash]
      simp [List.intercalate]

namespace Excludes

theorem excludes_congr {excludes : Excludes} (same : p.components = q.components) :
    excludes.excludes p = excludes.excludes q := by
  unfold Excludes.excludes Excludes.subject
  rw [same]

theorem subject_eq_shown (path : Path) : subject path = path.shown := by
  unfold subject Path.shown
  rw [Path.lossy_unsplit, List.map_map]
  rfl

theorem excludes_ofPatterns : (ofPatterns patterns).excludes path = true ↔
    ∃ pattern ∈ patterns, Wildcard.Generates pattern.toList path.shown := by
  simp only [Excludes.excludes, ofPatterns, subject_eq_shown, List.any_map, List.any_eq_true, Function.comp_apply,
    Wildcard.matches_compile]

end Excludes

-- A path is left out exactly if some pattern generates the whole of its text. The components alone
-- decide, and of the patterns only which there are.
theorem excluded_iff_generated :
    (∀ patterns path, (Excludes.ofPatterns patterns).excludes path = true ↔
      ∃ pattern ∈ patterns, Wildcard.Generates pattern.toList path.shown) ∧
    (∀ (patterns : List String) (p q : Path), p.components = q.components →
      (Excludes.ofPatterns patterns).excludes p = (Excludes.ofPatterns patterns).excludes q) ∧
    (∀ (patterns others : List String) (path : Path), (∀ pattern, pattern ∈ patterns ↔ pattern ∈ others) →
      (Excludes.ofPatterns patterns).excludes path = (Excludes.ofPatterns others).excludes path) ∧
    (∀ (patterns others : List String) (path : Path), (Excludes.ofPatterns (patterns ++ others)).excludes path =
      ((Excludes.ofPatterns patterns).excludes path || (Excludes.ofPatterns others).excludes path)) := by
  refine ⟨fun _ _ => Excludes.excludes_ofPatterns, fun _ _ _ same => Excludes.excludes_congr same,
    fun patterns others path same => ?_, fun patterns others path => ?_⟩
  · rw [Bool.eq_iff_iff, Excludes.excludes_ofPatterns, Excludes.excludes_ofPatterns]
    simp only [same]
  · rw [Bool.eq_iff_iff, Bool.or_eq_true, Excludes.excludes_ofPatterns, Excludes.excludes_ofPatterns,
      Excludes.excludes_ofPatterns]
    simp only [List.mem_append, or_and_right, exists_or]

theorem excluded_iff_generated_spelled :
    let patterns := ["", "*a?*b", ".git/*"]
    let others := ["*a?*b", ".git/*", "", "*a?*b"]
    let p : Path := ⟨[120, 47, 47, 97, 255, 42, 47, 46, 47, 99, 98, 47]⟩
    let q : Path := ⟨[120, 47, 97, 255, 42, 47, 99, 98]⟩
    p.components = q.components ∧ (∀ pattern, pattern ∈ patterns ↔ pattern ∈ others) ∧
      (Excludes.ofPatterns patterns).excludes p = true ∧ (Excludes.ofPatterns patterns).excludes q = true ∧
      (Excludes.ofPatterns others).excludes p = true ∧ (Excludes.ofPatterns [".git/*"]).excludes p = false := by
  intro patterns others p q
  obtain ⟨decided, spelling, order, both⟩ := excluded_iff_generated
  have same : p.components = q.components := by decide +kernel
  have listed : ∀ pattern, pattern ∈ patterns ↔ pattern ∈ others := by
    intro pattern
    simp only [patterns, others, List.mem_cons, List.not_mem_nil, or_false]
    tauto
  have text : p.shown = "x/".toList ++ 'a' :: Char.ofNat 0xFFFD :: ("*/c".toList ++ ['b']) := by decide +kernel
  have generated : Wildcard.Generates "*a?*b".toList p.shown := by
    rw [text]
    exact .star _ (.self (by decide) (by decide) (.one _ (.star _ (.self (by decide) (by decide) .nil))))
  have out : (Excludes.ofPatterns patterns).excludes p = true :=
    (decided patterns p).mpr ⟨"*a?*b", by simp [patterns], generated⟩
  refine ⟨same, listed, out, spelling patterns p q same ▸ out, order patterns others p listed ▸ out, by decide +kernel⟩

end DirWatch
