import DirWatch.Command.Report
import DirWatch.Proofs.Json.Interchange
import DirWatch.Proofs.Json.Lines
import Mathlib.Data.List.Forall2

namespace DirWatch.Report

open Json

variable {r : Report} {h : Handle} {root : Path} {c : Change} {changes : List Change} {lines : List String}

-- The path that is given for a handle: the last of those that are listed for it, or else a question mark.
inductive Given (r : Report) (h : Handle) : Path → Prop
  | listed {before after : List (Handle × Path)} {path : Path} :
      r.roots = before ++ (h, path) :: after → (∀ row ∈ after, row.1 ≠ h) → Given r h path
  | unknown : (∀ row ∈ r.roots, row.1 ≠ h) → Given r h (.ofString "?")

theorem given_rootOf (r : Report) (h : Handle) : r.Given h (r.rootOf h) := by
  unfold rootOf
  cases found : r.roots.reverse.lookup h with
  | none =>
    refine .unknown fun row listed => ?_
    have apart := List.lookup_eq_none_iff.mp found row (List.mem_reverse.mpr listed)
    exact Ne.symm (bne_iff_ne.mp apart)
  | some path =>
    obtain ⟨front, back, whole, apart⟩ := List.lookup_eq_some_iff.mp found
    rw [List.reverse_eq_iff, List.reverse_append, List.reverse_cons, List.append_assoc] at whole
    refine .listed whole fun row listed => ?_
    exact Ne.symm (bne_iff_ne.mp (apart row (List.mem_reverse.mp listed)))

theorem changeJson?_stands (able : c.path.IsText) : Stands changeJson? Change.ofJson? c := by
  obtain ⟨path, written, plain, back⟩ := Path.stands able
  refine ⟨_, by rw [changeJson?, written]; rfl, .record ?_, ?_⟩
  · simp only [List.forall_mem_cons]
    refine ⟨.record ?_, .text c.kind.label, by simp⟩
    simp [plain, Entry.plain_writtenJson, Plain.bool, Plain.natural]
  · simp [Change.ofJson?, Change.ofValues?, Entry.ofJson?, Entry.ofValues?, Json.record, Json.known?, Json.bool?, back,
      List.lookup_cons, Change.path]

-- A line tells of a change: it has no control character, and it is read as an object of a watch, a root and an event.
structure Tells (h : Handle) (root : Path) (c : Change) (line : String) : Prop where
  unbroken : Unbroken line.toList
  read : ∃ text event, ofText? line = some (.record [("event", event), ("root", .text text),
    ("watch", .natural h.id.toNat)]) ∧ Path.ofString text = root ∧ Change.ofJson? event = some c

theorem exists_line (able : root.IsText) (path : c.path.IsText) :
    ∃ line, (lineJson? h root c).map toText = some line ∧ Tells h root c line := by
  obtain ⟨event, written, plain, back⟩ := changeJson?_stands path
  obtain ⟨text, shows⟩ := Option.isSome_iff_exists.mp able
  have whole : Plain (.record [("event", event), ("root", .text text), ("watch", .natural h.id.toNat)]) :=
    .record (by simp [plain, Plain.text, Plain.natural])
  refine ⟨_, by simp [lineJson?, written, Path.toJson?, shows, Handle.toJson], ?_, text, event, ofText?_toText whole,
    Path.ofString_of_text? shows, back⟩
  rw [toText, String.toList_ofList]
  exact unbroken_write whole

def printed (lines : List String) : List Char := lines.flatMap fun line => line.toList ++ ['\n']

theorem splitOn_printed (whole : ∀ line ∈ lines, '\n' ∉ line.toList) :
    (printed lines).splitOn '\n' = lines.map String.toList ++ [[]] := by
  have joined : printed lines = ['\n'].intercalate (lines.map String.toList ++ [[]]) := by
    clear whole
    induction lines with
    | nil => rfl
    | cons line rest ih =>
      have more : rest.map String.toList ++ [[]] ≠ [] := by simp
      rw [List.map_cons, List.cons_append, List.intercalate_cons_of_ne_nil more, ← ih]
      simp [printed]
  rw [joined, List.splitOn_intercalate]
  · simpa [or_imp, forall_and] using whole
  · simp

theorem no_break_of_tells (all : List.Forall₂ (Tells h root) changes lines) : ∀ line ∈ lines, '\n' ∉ line.toList := by
  induction all with
  | nil => simp
  | cons tells _ ih => exact List.forall_mem_cons.mpr ⟨tells.unbroken.no_break, ih⟩

theorem exists_lines (able : root.IsText) (paths : ∀ c ∈ changes, c.path.IsText) :
    ∃ lines, (changes.mapM fun c => (lineJson? h root c).map toText) = some lines ∧
      List.Forall₂ (Tells h root) changes lines := by
  induction changes with
  | nil => exact ⟨[], rfl, .nil⟩
  | cons c rest ih =>
    obtain ⟨own, others⟩ := List.forall_mem_cons.mp paths
    obtain ⟨line, written, tells⟩ := exists_line (h := h) able own
    obtain ⟨lines, later, all⟩ := ih others
    exact ⟨line :: lines, by simp [List.mapM_cons, written, later], .cons tells all⟩

-- For every list of changes whose paths are texts: cut at its line breaks, the output is one line for
-- each, in their order, and each line is read as one object that names the watch, its path and the
-- change.
theorem json_lines_return (json : r.asJson = true) (root : (r.rootOf h).IsText)
    (paths : ∀ c ∈ changes, c.path.IsText) :
    r.Given h (r.rootOf h) ∧ ∃ lines, r.lines? h changes = some lines ∧
      List.Forall₂ (Tells h (r.rootOf h)) changes lines ∧
      (printed lines).splitOn '\n' = lines.map String.toList ++ [[]] := by
  obtain ⟨lines, written, all⟩ := exists_lines (h := h) root paths
  refine ⟨given_rootOf r h, lines, ?_, all, splitOn_printed fun line listed => ?_⟩
  · unfold lines?
    rw [if_pos json]
    exact written
  · exact no_break_of_tells all line listed

theorem json_lines_return_broken :
    let root : Path := .ofString "a\n\"b\\"
    let t : Instant := ⟨-377705116801, 1500000000, by decide⟩
    let r : Report := ⟨true, [(⟨3⟩, .ofString "x"), (⟨3⟩, root)]⟩
    let changes : List Change :=
      [.removed ⟨.ofString "\r\n\u0000𝄞", false, some t, 18446744073709551615⟩, .added ⟨.ofString "d", true, none, 0⟩]
    r.asJson = true ∧ (r.rootOf ⟨3⟩).IsText ∧ (∀ c ∈ changes, c.path.IsText) ∧ r.Given ⟨3⟩ (r.rootOf ⟨3⟩) ∧
      ∃ lines, r.lines? ⟨3⟩ changes = some lines ∧ List.Forall₂ (Tells ⟨3⟩ (r.rootOf ⟨3⟩)) changes lines ∧
        (printed lines).splitOn '\n' = lines.map String.toList ++ [[]] := by
  intro root t r changes
  have given : (r.rootOf ⟨3⟩).IsText := by
    have last : r.rootOf ⟨3⟩ = root := rfl
    simp [last, root, Path.IsText, Path.text?_ofString]
  have paths : ∀ c ∈ changes, c.path.IsText := by
    simp [changes, Change.path, Change.removed, Change.added, Path.IsText, Path.text?_ofString]
  exact ⟨rfl, given, paths, json_lines_return rfl given paths⟩

theorem lineJson?_eq_none (unable : ¬c.path.IsText) : lineJson? h root c = none := by
  have unwritten : c.path.toJson? = none := by simpa [Path.IsText, Path.toJson?] using unable
  simp [lineJson?, changeJson?, unwritten]

-- Whatever comes before a change that cannot be written is out by then, and nothing after it.
theorem linesBefore_of_unwritten {rest : List Change} (json : r.asJson = true)
    (written : r.lines? h changes = some lines) (unable : ¬c.path.IsText) :
    r.lines? h (changes ++ c :: rest) = none ∧ linesBefore h (r.rootOf h) (changes ++ c :: rest) = lines := by
  have stuck : lineJson? h (r.rootOf h) c = none := lineJson?_eq_none unable
  unfold lines? at written ⊢
  rw [if_pos json] at written ⊢
  induction changes generalizing lines with
  | nil =>
    cases written
    simp [linesBefore, stuck, List.mapM_cons]
  | cons d others ih =>
    rw [List.mapM_cons] at written
    obtain ⟨line, own, written⟩ := Option.bind_eq_some_iff.mp written
    obtain ⟨later, whole, put⟩ := Option.bind_eq_some_iff.mp written
    cases put
    obtain ⟨value, shown, rfl⟩ := Option.map_eq_some_iff.mp own
    obtain ⟨none, front⟩ := ih whole
    simp [linesBefore, List.mapM_cons, shown, none, front]

end DirWatch.Report
