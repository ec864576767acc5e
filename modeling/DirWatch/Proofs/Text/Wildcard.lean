import DirWatch.Text.Wildcard
import Mathlib.Data.List.Forall2
import Mathlib.Data.List.Infix

namespace DirWatch.Wildcard

variable {d c : Char} {pattern text : List Char} {answers : List Bool}

-- The texts that a pattern generates, character by character of the pattern.
inductive Generates : List Char → List Char → Prop
  | nil : Generates [] []
  | star {pattern text : List Char} (run : List Char) :
      Generates pattern text → Generates ('*' :: pattern) (run ++ text)
  | one {pattern text : List Char} (c : Char) : Generates pattern text → Generates ('?' :: pattern) (c :: text)
  | self {pattern text : List Char} {c : Char} :
      c ≠ '*' → c ≠ '?' → Generates pattern text → Generates (c :: pattern) (c :: text)

theorem generates_nil : Generates [] text ↔ text = [] := by
  constructor
  · intro generated
    cases generated
    rfl
  · rintro rfl
    exact .nil

theorem generates_star : Generates ('*' :: pattern) text ↔ ∃ run rest, text = run ++ rest ∧ Generates pattern rest := by
  constructor
  · intro generated
    cases generated with
    | star run rest => exact ⟨run, _, rfl, rest⟩
    | self star => exact absurd rfl star
  · rintro ⟨run, rest, rfl, generated⟩
    exact .star run generated

theorem generates_star_nil : Generates ('*' :: pattern) [] ↔ Generates pattern [] := by
  rw [generates_star]
  constructor
  · rintro ⟨run, rest, whole, generated⟩
    obtain ⟨rfl, rfl⟩ := List.nil_eq_append_iff.mp whole
    exact generated
  · exact fun generated => ⟨[], [], rfl, generated⟩

theorem generates_star_cons : Generates ('*' :: pattern) (c :: text) ↔
    Generates pattern (c :: text) ∨ Generates ('*' :: pattern) text := by
  rw [generates_star, generates_star]
  constructor
  · rintro ⟨run, rest, whole, generated⟩
    cases run with
    | nil =>
      rw [List.nil_append] at whole
      exact .inl (whole ▸ generated)
    | cons first run =>
      obtain ⟨rfl, rfl⟩ := List.cons.inj whole
      exact .inr ⟨run, rest, rfl, generated⟩
  · rintro (generated | ⟨run, rest, rfl, generated⟩)
    · exact ⟨[], _, rfl, generated⟩
    · exact ⟨c :: run, rest, rfl, generated⟩

theorem not_generates_nil (plain : d ≠ '*') : ¬Generates (d :: pattern) [] := by
  generalize same : d :: pattern = whole
  generalize none : ([] : List Char) = text
  intro generated
  cases generated with
  | nil => cases same
  | star run rest => exact plain (List.cons.inj same).1
  | one => cases none
  | self => cases none

theorem generates_single (plain : d ≠ '*') :
    Generates (d :: pattern) (c :: text) ↔ (Token.ofChar d).accepts c = true ∧ Generates pattern text := by
  constructor
  · generalize same : c :: text = whole
    intro generated
    cases generated with
    | star => exact absurd rfl plain
    | one e rest =>
      obtain ⟨rfl, rfl⟩ := List.cons.inj same
      exact ⟨rfl, rest⟩
    | self _ mark rest =>
      obtain ⟨rfl, rfl⟩ := List.cons.inj same
      exact ⟨by simp [Token.ofChar, plain, mark, Token.accepts], rest⟩
  · rintro ⟨accepts, rest⟩
    by_cases mark : d = '?'
    · subst mark
      exact .one c rest
    · have same : d = c := by simpa [Token.ofChar, plain, mark, Token.accepts] using accepts
      subst same
      exact .self plain mark rest

-- The answers are right for the text and for each of its suffixes in turn.
def Decides (pattern text : List Char) (answers : List Bool) : Prop :=
  List.Forall₂ (fun suffix answer => answer = true ↔ Generates pattern suffix) text.tails answers

theorem decides_nil : Decides pattern [] answers ↔ ∃ b, answers = [b] ∧ (b = true ↔ Generates pattern []) := by
  simp only [Decides, List.tails, List.forall₂_cons_left_iff, List.forall₂_nil_left_iff]
  constructor
  · rintro ⟨b, _, right, rfl, rfl⟩
    exact ⟨b, rfl, right⟩
  · rintro ⟨b, rfl, right⟩
    exact ⟨b, [], right, rfl, rfl⟩

theorem decides_cons : Decides pattern (c :: text) answers ↔
    ∃ b rest, answers = b :: rest ∧ (b = true ↔ Generates pattern (c :: text)) ∧ Decides pattern text rest := by
  simp only [Decides, List.tails_cons, List.forall₂_cons_left_iff]
  constructor
  · rintro ⟨b, rest, right, later, rfl⟩
    exact ⟨b, rest, rfl, right, later⟩
  · rintro ⟨b, rest, rfl, right, later⟩
    exact ⟨b, rest, right, later, rfl⟩

theorem Decides.head (decides : Decides pattern text answers) :
    answers.headD false = true ↔ Generates pattern text := by
  cases text with
  | nil =>
    obtain ⟨b, rfl, right⟩ := decides_nil.mp decides
    exact right
  | cons c text =>
    obtain ⟨b, rest, rfl, right, _⟩ := decides_cons.mp decides
    exact right

theorem decides_ends : Decides [] text (text.map (fun _ => false) ++ [true]) := by
  induction text with
  | nil => exact decides_nil.mpr ⟨true, rfl, by simp [generates_nil]⟩
  | cons c text ih => exact decides_cons.mpr ⟨false, _, rfl, by simp [generates_nil], ih⟩

theorem Decides.spread (decides : Decides pattern text answers) : Decides ('*' :: pattern) text (spread answers) := by
  induction text generalizing answers with
  | nil =>
    obtain ⟨b, rfl, right⟩ := decides_nil.mp decides
    exact decides_nil.mpr ⟨_, rfl, by simpa [Wildcard.spread, generates_star_nil] using right⟩
  | cons c text ih =>
    obtain ⟨b, rest, rfl, right, later⟩ := decides_cons.mp decides
    refine decides_cons.mpr ⟨_, _, rfl, ?_, ih later⟩
    rw [Bool.or_eq_true, right, (ih later).head, generates_star_cons]

theorem Decides.shift (plain : d ≠ '*') (decides : Decides pattern text answers) :
    Decides (d :: pattern) text (shift (Token.ofChar d) text answers) := by
  induction text generalizing answers with
  | nil => exact decides_nil.mpr ⟨false, rfl, by simp [not_generates_nil plain]⟩
  | cons c text ih =>
    obtain ⟨b, rest, rfl, _, later⟩ := decides_cons.mp decides
    refine decides_cons.mpr ⟨_, _, rfl, ?_, ih later⟩
    rw [List.tail_cons, Bool.and_eq_true, later.head, generates_single plain]

theorem row_cons (plain : d ≠ '*') (tokens : List Token) (text : List Char) :
    row (Token.ofChar d :: tokens) text = Wildcard.shift (Token.ofChar d) text (row tokens text) := by
  by_cases mark : d = '?'
  · simp [Token.ofChar, mark, row]
  · simp [Token.ofChar, plain, mark, row]

-- By induction on the pattern; the answers for the rest of it are those for every suffix that may be left over.
theorem decides_row (pattern text : List Char) : Decides pattern text (row (pattern.map Token.ofChar) text) := by
  induction pattern with
  | nil => exact decides_ends
  | cons d pattern ih =>
    by_cases star : d = '*'
    · subst star
      exact ih.spread
    · rw [List.map_cons, row_cons star]
      exact ih.shift star

theorem matches_compile (pattern : String) :
    Matches (compile pattern) text = true ↔ Generates pattern.toList text :=
  (decides_row pattern.toList text).head

end DirWatch.Wildcard
