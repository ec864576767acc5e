import DirWatch.Interchange
import DirWatch.Proofs.Json.Values
import DirWatch.Proofs.Text.Utf8
import DirWatch.Proofs.Time.Instant

namespace DirWatch

variable {α : Type} {write : α → Option Json} {read : Json → Option α} {can : α → Prop} {x : α}

namespace Json

-- `x` is written as a value of texts and natural numbers, and the value is read as `x`.
def Stands (write : α → Option Json) (read : Json → Option α) (x : α) : Prop :=
  ∃ v, write x = some v ∧ Plain v ∧ read v = some x

def Returns (write : α → Option Json) (read : Json → Option α) (x : α) : Prop :=
  ∃ v, write x = some v ∧ (ofText? v.toText).bind read = some x

theorem Stands.returns (stands : Stands write read x) : Returns write read x := by
  obtain ⟨v, written, plain, back⟩ := stands
  exact ⟨v, written, by simp [ofText?_toText plain, back]⟩

-- Whatever can be written returns, and whatever a text is read as can be written and returns.
structure Faithful (write : α → Option Json) (read : Json → Option α) (can : α → Prop) : Prop where
  written : ∀ x, can x → Returns write read x
  accepted : ∀ text x, (ofText? text).bind read = some x → Returns write read x

theorem faithful_of_stands (stands : ∀ x, can x → Stands write read x) (reads : ∀ v x, read v = some x → can x) :
    Faithful write read can where
  written x able := (stands x able).returns
  accepted text x taken := by
    obtain ⟨v, _, back⟩ := Option.bind_eq_some_iff.mp taken
    exact (stands x (reads v x back)).returns

@[simp]
theorem text?_text (s : String) : (text s).text? = some s := rfl

@[simp]
theorem word?_natural (n : UInt64) : word? (.natural n.toNat) = some n := by
  have below : n.toNat < UInt64.size := n.toNat_lt
  simp [word?, below]

end Json

open Json

-- A path can be written if its bytes are a text.
def Path.IsText (p : Path) : Prop := p.text?.isSome

theorem Path.stands {p : Path} (able : p.IsText) : Stands Path.toJson? Path.ofJson? p := by
  obtain ⟨text, shows⟩ := Option.isSome_iff_exists.mp able
  exact ⟨.text text, by simp [toJson?, shows], .text text, by simp [ofJson?, ofString_of_text? shows]⟩

theorem Path.isText_of_ofJson? {v : Json} {p : Path} (read : Path.ofJson? v = some p) : p.IsText := by
  obtain ⟨text, _, rfl⟩ := Option.map_eq_some_iff.mp read
  simp [IsText, text?_ofString]

namespace Entry

theorem plain_writtenJson (w : Option Instant) : Plain (writtenJson w) := by
  cases w with
  | none => exact .null
  | some t => exact .text t.write

@[simp]
theorem writtenOfJson?_writtenJson (w : Option Instant) : writtenOfJson? (writtenJson w) = some w := by
  cases w with
  | none => rfl
  | some t => simp [writtenJson, Json.text, writtenOfJson?, t.read?_write]

theorem stands {e : Entry} (able : e.path.IsText) : Stands toJson? ofJson? e := by
  obtain ⟨path, written, plain, back⟩ := Path.stands able
  refine ⟨_, by rw [toJson?, written]; rfl, .record ?_, ?_⟩
  · simp [plain, plain_writtenJson, Plain.bool, Plain.natural]
  · simp [ofJson?, Json.record, Json.known?, ofValues?, back, Json.bool?, List.lookup_cons]

theorem isText_of_ofValues? {path isDirectory written size : Json} {e : Entry}
    (read : ofValues? path isDirectory written size = some e) : e.path.IsText := by
  simp only [ofValues?, Option.bind_eq_bind, Option.bind_eq_some_iff, Option.some.injEq] at read
  obtain ⟨p, taken, _, _, _, _, _, _, rfl⟩ := read
  exact Path.isText_of_ofJson? taken

theorem isText_of_ofJson? {v : Json} {e : Entry} (read : ofJson? v = some e) : e.path.IsText := by
  unfold ofJson? at read
  split at read
  · simp only [Option.bind_eq_bind, Option.bind_eq_some_iff] at read
    obtain ⟨_, _, _, _, _, _, _, _, read⟩ := read
    exact isText_of_ofValues? read
  · exact isText_of_ofValues? read
  · cases read

end Entry

@[simp]
theorem ChangeKind.ofJson?_toJson (k : ChangeKind) : ofJson? k.toJson = some k := by
  cases k <;> rfl

@[simp]
theorem Action.ofJson?_toJson (a : Action) : ofJson? a.toJson = some a := by
  cases a <;> rfl

namespace Change

theorem stands {c : Change} (able : c.entry.path.IsText) : Stands toJson? ofJson? c := by
  obtain ⟨entry, written, plain, back⟩ := Entry.stands able
  refine ⟨_, by rw [toJson?, written]; rfl, .record ?_, ?_⟩
  · simp [plain, ChangeKind.toJson, Plain.text]
  · simp [ofJson?, Json.record, Json.known?, ofValues?, back, List.lookup_cons]

theorem isText_of_ofValues? {kind entry : Json} {c : Change} (read : ofValues? kind entry = some c) :
    c.entry.path.IsText := by
  simp only [ofValues?, Option.bind_eq_bind, Option.bind_eq_some_iff, Option.some.injEq] at read
  obtain ⟨_, _, e, taken, rfl⟩ := read
  exact Entry.isText_of_ofJson? taken

theorem isText_of_ofJson? {v : Json} {c : Change} (read : ofJson? v = some c) : c.entry.path.IsText := by
  unfold ofJson? at read
  split at read
  · simp only [Option.bind_eq_bind, Option.bind_eq_some_iff] at read
    obtain ⟨_, _, _, _, _, _, read⟩ := read
    exact isText_of_ofValues? read
  · exact isText_of_ofValues? read
  · cases read

end Change

namespace Record

theorem stands {r : Record} (able : r.path.IsText) : Stands toJson? ofJson? r := by
  obtain ⟨path, written, plain, back⟩ := Path.stands able
  refine ⟨_, by rw [toJson?, written]; rfl, .record ?_, ?_⟩
  · simp [plain, Action.toJson, Plain.text]
  · simp [ofJson?, Json.record, Json.known?, ofValues?, back, List.lookup_cons]

theorem isText_of_ofValues? {action path : Json} {r : Record} (read : ofValues? action path = some r) :
    r.path.IsText := by
  simp only [ofValues?, Option.bind_eq_bind, Option.bind_eq_some_iff, Option.some.injEq] at read
  obtain ⟨_, _, p, taken, rfl⟩ := read
  exact Path.isText_of_ofJson? taken

theorem isText_of_ofJson? {v : Json} {r : Record} (read : ofJson? v = some r) : r.path.IsText := by
  unfold ofJson? at read
  split at read
  · simp only [Option.bind_eq_bind, Option.bind_eq_some_iff] at read
    obtain ⟨_, _, _, _, _, _, read⟩ := read
    exact isText_of_ofValues? read
  · exact isText_of_ofValues? read
  · cases read

end Record

theorem Handle.stands (h : Handle) : Stands (fun h => some (toJson h)) ofJson? h :=
  ⟨_, rfl, .natural _, by simp [toJson, ofJson?]⟩

namespace Settings

theorem patternsOfJson?_texts (patterns : List String) : (patterns.map Json.text).mapM Json.text? = some patterns := by
  induction patterns with
  | nil => rfl
  | cons p rest ih => simp [ih]

theorem ofValues?_written (s : Settings) : ofValues? (some (.natural s.bufferCapacity.toNat))
    (some (.natural s.stopPollMillis.toNat)) (some (.array (s.excludePatterns.map Json.text)))
    (some (.bool s.followLinks)) = some s := by
  have capacity := word?_natural s.bufferCapacity
  have interval := word?_natural s.stopPollMillis
  have patterns := patternsOfJson?_texts s.excludePatterns
  simp only [ofValues?, orDefault, patternsOfJson?, capacity, interval, patterns, Json.bool?, Option.bind_eq_bind,
    Option.bind_some]

theorem stands (s : Settings) : Stands (fun s => some (toJson s)) ofJson? s := by
  refine ⟨_, rfl, .record ?_, ?_⟩
  · have patterns : Plain (.array (s.excludePatterns.map Json.text)) := .array fun v listed => by
      obtain ⟨p, _, rfl⟩ := List.mem_map.mp listed
      exact .text p
    simp [patterns, Plain.bool, Plain.natural]
  · simp [toJson, ofJson?, Json.record, Json.known?, List.lookup_cons, ofValues?_written]

end Settings

-- Everything that is written as JSON returns from its text, to the byte of its path and the nanosecond of its time.
theorem json_returns :
    Faithful Entry.toJson? Entry.ofJson? (fun e => e.path.IsText) ∧
    Faithful Change.toJson? Change.ofJson? (fun c => c.entry.path.IsText) ∧
    Faithful Record.toJson? Record.ofJson? (fun r => r.path.IsText) ∧
    Faithful (fun w => some (Entry.writtenJson w)) Entry.writtenOfJson? (fun _ => True) ∧
    Faithful (fun k => some (ChangeKind.toJson k)) ChangeKind.ofJson? (fun _ => True) ∧
    Faithful (fun a => some (Action.toJson a)) Action.ofJson? (fun _ => True) ∧
    Faithful (fun h => some (Handle.toJson h)) Handle.ofJson? (fun _ => True) ∧
    Faithful (fun s => some (Settings.toJson s)) Settings.ofJson? (fun _ => True) := by
  refine ⟨faithful_of_stands (fun _ => Entry.stands) fun _ _ => Entry.isText_of_ofJson?,
    faithful_of_stands (fun _ => Change.stands) fun _ _ => Change.isText_of_ofJson?,
    faithful_of_stands (fun _ => Record.stands) fun _ _ => Record.isText_of_ofJson?,
    faithful_of_stands (fun w _ => ⟨_, rfl, Entry.plain_writtenJson w, Entry.writtenOfJson?_writtenJson w⟩) (by simp),
    faithful_of_stands (fun k _ => ⟨_, rfl, .text _, k.ofJson?_toJson⟩) (by simp),
    faithful_of_stands (fun a _ => ⟨_, rfl, .text _, a.ofJson?_toJson⟩) (by simp),
    faithful_of_stands (fun h _ => Handle.stands h) (by simp),
    faithful_of_stands (fun s _ => Settings.stands s) (by simp)⟩

theorem json_returns_leap_second :
    let t : Instant := ⟨-377705116801, 1500000000, by decide⟩
    let e : Entry := ⟨.ofString "a\"\n𝄞", false, some t, 18446744073709551615⟩
    let f : Entry := ⟨.ofString "𝄞", true, some t, 0⟩
    let text := "[\"\\ud834\\udd1e\", true, \"-9999-01-01 00:59:60.5+01:00\", 0]"
    (e.path.IsText ∧ Returns Entry.toJson? Entry.ofJson? e) ∧
      (ofText? text).bind Entry.ofJson? = some f ∧ Returns Entry.toJson? Entry.ofJson? f := by
  intro t e f text
  have able : e.path.IsText := by simp [e, Path.IsText, Path.text?_ofString]
  have read : (ofText? text).bind Entry.ofJson? = some f := by decide +kernel
  exact ⟨⟨able, json_returns.1.written e able⟩, read, json_returns.1.accepted text f read⟩

end DirWatch
