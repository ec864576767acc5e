import DirWatch.Proofs.Json.Tokens

namespace DirWatch.Json

variable {v : Json} {items : List Json} {members : List (String × Json)} {limit : Nat} {c : Char} {cs rest : List Char}

-- Values that are built of texts and of natural numbers.
inductive Plain : Json → Prop
  | null : Plain .null
  | bool (b : Bool) : Plain (.bool b)
  | natural (n : Nat) : Plain (.natural n)
  | text (s : String) : Plain (.text s)
  | array {items : List Json} : (∀ v ∈ items, Plain v) → Plain (.array items)
  | record {members : List (String × Json)} : (∀ m ∈ members, Plain m.2) → Plain (.record members)

def Starts (text : List Char) : Prop := ∃ c cs, text = c :: cs ∧ isBlank c = false ∧ c ≠ ']'

theorem skip_of_starts (starts : Starts cs) : skip (cs ++ rest) = cs ++ rest := by
  obtain ⟨c, more, rfl, shows, _⟩ := starts
  simp [skip, shows]

theorem skip_cons (shows : isBlank c = false) : skip (c :: rest) = c :: rest := by
  simp [skip, shows]

theorem starts_write (plain : Plain v) : Starts v.write := by
  cases plain with
  | null => exact ⟨_, _, rfl, rfl, by decide⟩
  | bool b => cases b <;> exact ⟨_, _, rfl, rfl, by decide⟩
  | natural n =>
    obtain ⟨d, ds, digits, digit⟩ := Text.decimal_cons n
    refine ⟨d, ds, digits, ?_, ?_⟩
    · cases blank : isBlank d with
      | false => rfl
      | true =>
        simp only [isBlank, Bool.or_eq_true, beq_iff_eq] at blank
        rcases blank with ((rfl | rfl) | rfl) | rfl <;> cases digit
    · rintro rfl
      cases digit
  | text s => exact ⟨_, _, rfl, rfl, by decide⟩
  | array => exact ⟨_, _, rfl, rfl, by decide⟩
  | record => exact ⟨_, _, rfl, rfl, by decide⟩

-- Given as many calls as there are characters, twice, the text of the value is read as the value.
def ReadsBack (v : Json) : Prop := ∀ limit rest, 2 * v.write.length ≤ limit → Ends rest →
  readValue? limit (v.write ++ rest) = some (v, rest)

theorem ReadsBack.of_succ (plain : Plain v) (back : ∀ limit rest, 2 * v.write.length ≤ limit + 1 → Ends rest →
    readValue? (limit + 1) (v.write ++ rest) = some (v, rest)) : ReadsBack v := by
  intro limit rest enough ends
  obtain ⟨c, cs, text, _⟩ := starts_write plain
  have calls : limit ≠ 0 := by
    simp only [text, List.length_cons] at enough
    omega
  obtain ⟨limit, rfl⟩ := Nat.exists_eq_add_one_of_ne_zero calls
  exact back limit rest enough ends

theorem readItems?_write (some : items ≠ []) (each : ∀ v ∈ items, ReadsBack v)
    (enough : 2 * (writeItems items).length + 1 ≤ limit) :
    readItems? limit (writeItems items ++ ']' :: rest) = Option.some (items, rest) := by
  induction items generalizing limit with
  | nil => exact absurd rfl some
  | cons v more ih =>
    obtain ⟨limit, rfl⟩ := Nat.exists_eq_add_one_of_ne_zero (n := limit) (by omega)
    have back := each v List.mem_cons_self
    cases more with
    | nil =>
      simp only [writeItems] at enough ⊢
      rw [readItems?, back limit _ (by omega) (by simp)]
      simp [skip_cons, isBlank]
    | cons w others =>
      simp only [writeItems, List.length_append, List.length_cons] at enough ih ⊢
      have later := @ih limit (by simp) (fun u listed => each u (List.mem_cons_of_mem _ listed)) (by omega)
      rw [List.append_assoc, List.cons_append, readItems?, back limit _ (by omega) (by simp)]
      simp [skip_cons, isBlank, later]

theorem writeMember_text {k : String} : writeMember (some k, v) =
    '\x22' :: (k.toList.flatMap escape ++ '\x22' :: ':' :: v.write) := by
  simp [writeMember, writeText]

def named (members : List (String × Json)) : List (Option String × Json) := members.map fun (k, v) => (some k, v)

theorem readMembers?_write (some : members ≠ []) (each : ∀ m ∈ members, ReadsBack m.2)
    (enough : 2 * (writeMembers (named members)).length + 1 ≤ limit) :
    readMembers? limit (writeMembers (named members) ++ '\x7d' :: rest) = Option.some (named members, rest) := by
  induction members generalizing limit with
  | nil => exact absurd rfl some
  | cons m more ih =>
    obtain ⟨limit, rfl⟩ := Nat.exists_eq_add_one_of_ne_zero (n := limit) (by omega)
    obtain ⟨k, v⟩ := m
    have back : ReadsBack v := each (k, v) List.mem_cons_self
    cases more with
    | nil =>
      simp only [named, List.map_cons, List.map_nil, writeMembers, writeMember_text, List.length_cons,
        List.length_append] at enough ⊢
      have read := back limit ('\x7d' :: rest) (by omega) (by simp)
      simp [readMembers?, skip_cons, isBlank, readText?_write, read]
    | cons n others =>
      simp only [named, List.map_cons, writeMembers, writeMember_text, List.length_cons, List.length_append]
        at enough ih ⊢
      have later := @ih limit (by simp) (fun u listed => each u (List.mem_cons_of_mem _ listed)) (by omega)
      have read := fun text => back limit (',' :: text) (by omega) (by simp)
      simp [readMembers?, skip_cons, isBlank, readText?_write, read, later]

theorem starts_items (some : items ≠ []) (each : ∀ v ∈ items, Plain v) : Starts (writeItems items) := by
  cases items with
  | nil => exact absurd rfl some
  | cons v more =>
    obtain ⟨c, cs, text, shows, closes⟩ := starts_write (each v List.mem_cons_self)
    cases more with
    | nil => exact ⟨c, cs, text, shows, closes⟩
    | cons w others => exact ⟨c, cs ++ ',' :: writeItems (w :: others), by simp [writeItems, text], shows, closes⟩

theorem starts_members (some : members ≠ []) : ∃ cs, writeMembers (named members) = '\x22' :: cs := by
  cases members with
  | nil => exact absurd rfl some
  | cons m more =>
    obtain ⟨k, v⟩ := m
    cases more with
    | nil => exact ⟨_, writeMember_text⟩
    | cons n others => exact ⟨_, congrArg (· ++ ',' :: writeMembers (named (n :: others))) writeMember_text⟩

theorem readsBack_natural (n : Nat) : ReadsBack (.natural n) := by
  refine .of_succ (.natural n) fun limit rest _ ends => ?_
  obtain ⟨d, ds, digits, digit⟩ := Text.decimal_cons n
  have digits : Nat.toDigits 10 n = d :: ds := digits
  have shows : skip (write (.natural n) ++ rest) = write (.natural n) ++ rest :=
    skip_of_starts (starts_write (.natural n))
  rw [readValue?.eq_def]
  simp only [shows]
  rw [← readNumber?_natural (n := n) ends]
  simp only [write, digits, List.cons_append]
  -- None of the other values begins with a digit.
  split <;> rename_i same
  case h_7 => rfl
  all_goals
    rw [List.cons.injEq] at same
    rw [same.1] at digit
    cases digit

theorem readsBack_array (each : ∀ v ∈ items, Plain v) (back : ∀ v ∈ items, ReadsBack v) :
    ReadsBack (.array items) := by
  refine .of_succ (.array each) fun limit rest enough ends => ?_
  simp only [write, List.length_append, List.length_cons, List.length_nil] at enough
  by_cases some : items = []
  · subst some
    simp [readValue?, write, writeItems, skip_cons, isBlank]
  · have read : readItems? limit (writeItems items ++ ']' :: rest) = Option.some (items, rest) :=
      readItems?_write some back (by omega)
    obtain ⟨c, cs, text, shows, closes⟩ := starts_items some each
    simp only [text, List.cons_append] at read
    have skipped : skip (c :: (cs ++ ']' :: rest)) = c :: (cs ++ ']' :: rest) := skip_cons shows
    simp [readValue?, write, text, skip_cons, isBlank, skipped, closes, read]

@[simp]
theorem write_record : write (.record members) = '\x7b' :: (writeMembers (named members) ++ ['\x7d']) := rfl

theorem readsBack_record (each : ∀ m ∈ members, Plain m.2) (back : ∀ m ∈ members, ReadsBack m.2) :
    ReadsBack (.record members) := by
  refine .of_succ (.record each) fun limit rest enough ends => ?_
  simp only [write_record, List.length_append, List.length_cons, List.length_nil] at enough
  by_cases some : members = []
  · subst some
    simp [readValue?, named, writeMembers, skip_cons, isBlank]
    rfl
  · have read : readMembers? limit (writeMembers (named members) ++ '\x7d' :: rest) =
        Option.some (named members, rest) := readMembers?_write some back (by omega)
    obtain ⟨cs, text⟩ := starts_members some
    simp only [text, List.cons_append] at read
    simp [readValue?, text, skip_cons, isBlank, read]
    rfl

theorem readsBack (plain : Plain v) : ReadsBack v := by
  induction plain with
  | null =>
    refine .of_succ .null fun limit rest _ _ => ?_
    simp [readValue?, write, skip_cons, isBlank]
  | bool b =>
    refine .of_succ (.bool b) fun limit rest _ _ => ?_
    cases b <;> simp [readValue?, write, skip_cons, isBlank]
  | natural n => exact readsBack_natural n
  | text s =>
    refine .of_succ (.text s) fun limit rest _ _ => ?_
    simp [readValue?, text, write, writeText, skip_cons, isBlank, readText?_write]
  | array each back => exact readsBack_array each back
  | record each back => exact readsBack_record each back

theorem ofText?_toText (plain : Plain v) : ofText? v.toText = some v := by
  have read := readsBack plain (2 * v.write.length + 2) [] (by omega) (by simp)
  rw [List.append_nil] at read
  simp [ofText?, ofChars?, toText, read, skip]

end DirWatch.Json
