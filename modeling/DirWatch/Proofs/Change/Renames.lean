import DirWatch.Change
import Mathlib.Algebra.BigOperators.Group.Finset.Basic
import Mathlib.Data.List.Sort

namespace DirWatch.Change

abbrev Likeness := Bool × UInt64 × Option Instant

def likeness (e : Entry) : Likeness := (e.isDirectory, e.size, e.written)

variable {ι : Type} {shows : ι → Entry} {e r : Entry} {gone others : List Entry} {kind : ChangeKind} {key : Likeness}
  {changes : List Change} {i j n : Nat}

theorem alike_iff : alike r e = true ↔ likeness r = likeness e := by
  simp [alike, likeness, and_assoc]

theorem takeAlike_eq_none (none : takeAlike e gone = Option.none) : ∀ r ∈ gone, likeness r ≠ likeness e := by
  induction gone with
  | nil => simp
  | cons first rest ih =>
    unfold takeAlike at none
    split at none
    · cases none
    · rename_i apart
      rw [alike_iff] at apart
      intro r listed
      rcases List.mem_cons.mp listed with rfl | later
      · exact apart
      · exact ih (Option.map_eq_none_iff.mp none) r later

theorem takeAlike_eq_some (taken : takeAlike e gone = some (r, others)) : ∃ front back, gone = front ++ r :: back ∧
    others = front ++ back ∧ likeness r = likeness e ∧ ∀ q ∈ front, likeness q ≠ likeness e := by
  induction gone generalizing others with
  | nil => cases taken
  | cons first rest ih =>
    unfold takeAlike at taken
    split at taken
    · rename_i same
      cases taken
      exact ⟨[], rest, rfl, rfl, alike_iff.mp same, by simp⟩
    · rename_i apart
      rw [alike_iff] at apart
      obtain ⟨⟨found, left⟩, later, same⟩ := Option.map_eq_some_iff.mp taken
      cases same
      obtain ⟨front, back, whole, kept, same, before⟩ := ih later
      refine ⟨first :: front, back, by rw [whole, List.cons_append], by rw [kept, List.cons_append], same, ?_⟩
      intro q listed
      rcases List.mem_cons.mp listed with rfl | listed
      · exact apart
      · exact before q listed

def like (shows : ι → Entry) (key : Likeness) (things : List ι) : List ι :=
  things.filter fun x => likeness (shows x) = key

-- Some things that are gone and some that have come, put together in the order of those that have come: for each
-- likeness one after the other, as long as there are some of both.
structure Paired (shows : ι → Entry) (gone come : List ι) (pairs : List (ι × ι)) : Prop where
  ordered : (pairs.map Prod.snd).Sublist come
  each : ∀ key, pairs.filter (fun p => likeness (shows p.2) = key) = (like shows key gone).zip (like shows key come)

section Paired

variable {gone come front back : List ι} {x y : ι} {pairs : List (ι × ι)}

theorem Paired.skip (paired : Paired shows gone come pairs)
    (none : ∀ z ∈ gone, likeness (shows z) ≠ likeness (shows y)) : Paired shows gone (y :: come) pairs := by
  refine ⟨paired.ordered.cons y, fun key => ?_⟩
  rw [paired.each key]
  by_cases own : likeness (shows y) = key
  · have empty : like shows key gone = [] := by
      refine List.filter_eq_nil_iff.mpr fun z listed => ?_
      simpa [← own] using none z listed
    rw [empty, List.zip_nil_left, List.zip_nil_left]
  · simp [like, own]

theorem Paired.take (paired : Paired shows (front ++ back) come pairs)
    (same : likeness (shows x) = likeness (shows y)) (before : ∀ z ∈ front, likeness (shows z) ≠ likeness (shows y)) :
    Paired shows (front ++ x :: back) (y :: come) ((x, y) :: pairs) := by
  refine ⟨paired.ordered.cons_cons y, fun key => ?_⟩
  have rest := paired.each key
  by_cases own : likeness (shows y) = key
  · have empty : front.filter (fun z => decide (likeness (shows z) = key)) = [] := by
      refine List.filter_eq_nil_iff.mpr fun z listed => ?_
      simpa [← own] using before z listed
    simp only [like, List.filter_append, empty, List.nil_append] at rest
    simp [like, own, same, empty, rest]
  · simp only [like, List.filter_append] at rest
    simp [like, own, same, rest]

-- By induction on the additions; what has been taken is no longer among the removals.
theorem exists_paired (gone come : List ι) : ∃ pairs, Paired shows gone come pairs ∧
    pairWith (gone.map shows) (come.map shows) = pairs.map fun p => ((shows p.1).path, (shows p.2).path) := by
  induction come generalizing gone with
  | nil => exact ⟨[], ⟨.slnil, fun key => by simp [like]⟩, by simp [pairWith]⟩
  | cons y come ih =>
    rw [List.map_cons, pairWith]
    cases taken : takeAlike (shows y) (gone.map shows) with
    | none =>
      obtain ⟨pairs, paired, read⟩ := ih gone
      refine ⟨pairs, paired.skip fun z listed => ?_, read⟩
      exact takeAlike_eq_none taken (shows z) (List.mem_map_of_mem listed)
    | some found =>
      obtain ⟨r, others⟩ := found
      obtain ⟨first, last, whole, rfl, same, before⟩ := takeAlike_eq_some taken
      obtain ⟨front, behind, rfl, rfl, shown⟩ := List.map_eq_append_iff.mp whole
      obtain ⟨x, back, rfl, rfl, rfl⟩ := List.map_eq_cons_iff.mp shown
      obtain ⟨pairs, paired, read⟩ := ih (front ++ back)
      rw [List.map_append] at read
      refine ⟨(x, y) :: pairs, paired.take same fun z listed => before _ (List.mem_map_of_mem listed), ?_⟩
      simp only [read, List.map_cons]

theorem Paired.mem_iff (paired : Paired shows gone come pairs) {p : ι × ι} :
    p ∈ pairs ↔ ∃ key, p ∈ (like shows key gone).zip (like shows key come) := by
  simp only [← paired.each, List.mem_filter, decide_eq_true_eq, exists_and_left, exists_eq', and_true]

theorem Paired.length_eq (paired : Paired shows gone come pairs) (keys : Finset Likeness)
    (all : ∀ z ∈ come, likeness (shows z) ∈ keys) :
    pairs.length = ∑ key ∈ keys, min (like shows key gone).length (like shows key come).length := by
  have counted : ∀ l ∈ (pairs.map fun p => likeness (shows p.2) : Multiset Likeness), l ∈ keys := by
    intro l listed
    obtain ⟨p, found, rfl⟩ := List.mem_map.mp (Multiset.mem_coe.mp listed)
    exact all p.2 (paired.ordered.subset (List.mem_map_of_mem found))
  have total := Multiset.sum_count_eq_card counted
  rw [Multiset.coe_card, List.length_map] at total
  rw [← total]
  refine Finset.sum_congr rfl fun key _ => ?_
  rw [← List.length_zip, ← paired.each, ← List.countP_eq_length_filter]
  exact (Multiset.coe_count _ _).trans List.countP_map

end Paired

-- Where the changes of a kind to entries of a likeness stand, in order.
def positions (kind : ChangeKind) (key : Likeness) (changes : List Change) : List Nat :=
  changes.findIdxs fun c => c.kind = kind && likeness c.entry = key

theorem mem_positions : i ∈ positions kind key changes ↔ ∃ e, changes[i]? = some ⟨kind, e⟩ ∧ likeness e = key := by
  unfold positions
  rw [List.mem_findIdxs_iff_exists_getElem_pos]
  simp only [Bool.and_eq_true, decide_eq_true_eq, List.getElem?_eq_some_iff]
  constructor
  · rintro ⟨inside, rfl, rfl⟩
    exact ⟨_, ⟨inside, rfl⟩, rfl⟩
  · rintro ⟨e, ⟨inside, here⟩, rfl⟩
    exact ⟨inside, by rw [here], by rw [here]⟩

theorem nodup_positions : (positions kind key changes).Nodup := List.nodup_findIdxs

theorem positions_inj {l : Likeness} {m : Nat} (one : (positions kind key changes)[n]? = some i)
    (other : (positions kind l changes)[m]? = some i) : key = l ∧ n = m := by
  obtain ⟨e, here, rfl⟩ := mem_positions.mp (List.mem_of_getElem? one)
  obtain ⟨f, there, rfl⟩ := mem_positions.mp (List.mem_of_getElem? other)
  rw [here] at there
  cases there
  refine ⟨rfl, (List.getElem?_inj ?_ nodup_positions).mp (one.trans other.symm)⟩
  exact (List.getElem?_eq_some_iff.mp one).1

-- Of a removal and an addition that are alike the one with the smaller number has a partner.
theorem exists_partner (gone : i ∈ positions .removed key changes) (come : j ∈ positions .added key changes) :
    (∃ n k : Nat, (positions .removed key changes)[n]? = some i ∧ (positions .added key changes)[n]? = some k) ∨
      ∃ n k : Nat, (positions .removed key changes)[n]? = some k ∧ (positions .added key changes)[n]? = some j := by
  obtain ⟨n, numbered⟩ := List.mem_iff_getElem?.mp gone
  obtain ⟨m, counted⟩ := List.mem_iff_getElem?.mp come
  rcases Nat.le_total n m with before | after
  · have inside : n < (positions .added key changes).length :=
      Nat.lt_of_le_of_lt before (List.getElem?_eq_some_iff.mp counted).1
    exact .inl ⟨n, _, numbered, List.getElem?_eq_getElem inside⟩
  · have inside : m < (positions .removed key changes).length :=
      Nat.lt_of_le_of_lt after (List.getElem?_eq_some_iff.mp numbered).1
    exact .inr ⟨m, _, List.getElem?_eq_getElem inside, counted⟩

def marked (kind : ChangeKind) (changes : List Change) : List (Change × Nat) :=
  changes.zipIdx.filter fun c => c.1.kind == kind

def entryOf (c : Change × Nat) : Entry := c.1.entry

theorem map_marked : (marked kind changes).map entryOf = (changes.filter fun c => c.kind == kind).map entry := by
  have unmarked : (marked kind changes).map Prod.fst = changes.filter fun c => c.kind == kind := by
    have whole := List.filter_map (f := Prod.fst) (p := fun c : Change => c.kind == kind) (l := changes.zipIdx)
    rw [List.zipIdx_map_fst] at whole
    exact whole.symm
  rw [← unmarked, List.map_map]
  rfl

theorem getElem?_of_marked {c : Change × Nat} (listed : c ∈ marked kind changes) : changes[c.2]? = some c.1 :=
  List.mem_zipIdx_iff_getElem?.mp (List.mem_filter.mp listed).1

theorem positions_eq : positions kind key changes = (like entryOf key (marked kind changes)).map Prod.snd := by
  unfold positions like marked
  rw [List.findIdxs_eq_filterMap_zipIdx, List.filter_filter, ← List.filterMap_eq_map, List.filterMap_filter]
  refine List.filterMap_congr fun c _ => ?_
  by_cases same : c.1.kind = kind <;> by_cases own : likeness c.1.entry = key <;> simp [entryOf, same, own]

section Places

variable {pairs : List ((Change × Nat) × (Change × Nat))}

def places (pairs : List ((Change × Nat) × (Change × Nat))) : List (Nat × Nat) :=
  pairs.map (Prod.map Prod.snd Prod.snd)

theorem Paired.places_ordered {left : List (Change × Nat)} (paired : Paired entryOf left (marked kind changes) pairs) :
    ((places pairs).map Prod.snd).Pairwise (· < ·) := by
  have rising : (changes.zipIdx.map Prod.snd).Pairwise (· < ·) := by
    rw [List.zipIdx_map_snd]
    exact List.pairwise_lt_range'
  have ordered := rising.sublist ((paired.ordered.trans List.filter_sublist).map Prod.snd)
  unfold places
  rwa [List.map_map] at ordered ⊢

theorem Paired.mem_places (paired : Paired entryOf (marked .removed changes) (marked .added changes) pairs) :
    (i, j) ∈ places pairs ↔ ∃ (key : Likeness) (n : Nat),
      (positions .removed key changes)[n]? = some i ∧ (positions .added key changes)[n]? = some j := by
  simp only [positions_eq, ← List.getElem?_zip_eq_some (z := (i, j)), ← List.mem_iff_getElem?, List.zip_map]
  constructor
  · intro listed
    obtain ⟨p, found, same⟩ := List.mem_map.mp listed
    obtain ⟨key, found⟩ := paired.mem_iff.mp found
    exact ⟨key, List.mem_map.mpr ⟨p, found, same⟩⟩
  · rintro ⟨key, listed⟩
    obtain ⟨p, found, same⟩ := List.mem_map.mp listed
    exact List.mem_map.mpr ⟨p, paired.mem_iff.mpr ⟨key, found⟩, same⟩

end Places

-- Removals and additions put together by their places in the list of changes.
structure InTurn (changes : List Change) (pairs : List (Nat × Nat)) : Prop where
  removals_once : (pairs.map Prod.fst).Nodup
  additions_ordered : (pairs.map Prod.snd).Pairwise (· < ·)
  matched : ∀ i j, (i, j) ∈ pairs ↔ ∃ (key : Likeness) (n : Nat),
    (positions .removed key changes)[n]? = some i ∧ (positions .added key changes)[n]? = some j
  kinds : ∀ i j, (i, j) ∈ pairs →
    ∃ r a, changes[i]? = some (removed r) ∧ changes[j]? = some (added a) ∧ likeness r = likeness a
  removals_left : ∀ (key : Likeness) (n i : Nat), (positions .removed key changes)[n]? = some i →
    (positions .added key changes)[n]? = none → i ∉ pairs.map Prod.fst
  additions_left : ∀ (key : Likeness) (n j : Nat), (positions .added key changes)[n]? = some j →
    (positions .removed key changes)[n]? = none → j ∉ pairs.map Prod.snd
  exhausted : ∀ key i j, i ∈ positions .removed key changes → j ∈ positions .added key changes →
    i ∈ pairs.map Prod.fst ∨ j ∈ pairs.map Prod.snd

theorem inTurn_of_matched {pairs : List (Nat × Nat)} (ordered : (pairs.map Prod.snd).Pairwise (· < ·))
    (matched : ∀ i j, (i, j) ∈ pairs ↔ ∃ (key : Likeness) (n : Nat),
      (positions .removed key changes)[n]? = some i ∧ (positions .added key changes)[n]? = some j) :
    InTurn changes pairs where
  removals_once := by
    have distinct : pairs.Nodup := (ordered.imp Nat.ne_of_lt).of_map Prod.snd fun _ _ apart same => apart (same ▸ rfl)
    refine distinct.map_on fun p first q second same => ?_
    obtain ⟨i, j⟩ := p
    obtain ⟨i', j'⟩ := q
    obtain rfl : i = i' := same
    obtain ⟨key, n, gone, come⟩ := (matched i j).mp first
    obtain ⟨l, m, gone', come'⟩ := (matched i j').mp second
    obtain ⟨rfl, rfl⟩ := positions_inj gone gone'
    rw [Option.some.inj (come.symm.trans come')]
  additions_ordered := ordered
  matched := matched
  kinds i j paired := by
    obtain ⟨key, n, gone, come⟩ := (matched i j).mp paired
    obtain ⟨r, here, alike⟩ := mem_positions.mp (List.mem_of_getElem? gone)
    obtain ⟨a, there, same⟩ := mem_positions.mp (List.mem_of_getElem? come)
    exact ⟨r, a, here, there, alike.trans same.symm⟩
  removals_left key n i gone none paired := by
    obtain ⟨⟨_, j⟩, listed, rfl⟩ := List.mem_map.mp paired
    obtain ⟨l, m, gone', come⟩ := (matched _ j).mp listed
    obtain ⟨rfl, rfl⟩ := positions_inj gone gone'
    rw [none] at come
    cases come
  additions_left key n j come none paired := by
    obtain ⟨⟨i, _⟩, listed, rfl⟩ := List.mem_map.mp paired
    obtain ⟨l, m, gone, come'⟩ := (matched i _).mp listed
    obtain ⟨rfl, rfl⟩ := positions_inj come come'
    rw [none] at gone
    cases gone
  exhausted key i j gone come := by
    rcases exists_partner gone come with ⟨n, other, own, partner⟩ | ⟨n, other, partner, own⟩
    · exact .inl (List.mem_map_of_mem ((matched i other).mpr ⟨key, n, own, partner⟩))
    · exact .inr (List.mem_map_of_mem ((matched other j).mpr ⟨key, n, partner, own⟩))

def pathAt? (changes : List Change) (i : Nat) : Option Path := changes[i]?.map path

theorem pathAt?_of_marked {c : Change × Nat} (listed : c ∈ marked kind changes) :
    pathAt? changes c.2 = some (entryOf c).path := by
  rw [pathAt?, getElem?_of_marked listed]
  rfl

-- Whatever the changes are: among those alike, additions and removals are paired by their numbers as
-- long as there are some of both, no change is used twice, and the pairs stand as their additions do.
theorem renames_in_turn (changes : List Change) : ∃ pairs, InTurn changes pairs ∧
    (renames changes).map (Prod.map some some) = pairs.map (Prod.map (pathAt? changes) (pathAt? changes)) ∧
    (renames changes).length = ∑ key ∈ (changes.map fun c => likeness c.entry).toFinset,
      min (positions .removed key changes).length (positions .added key changes).length := by
  obtain ⟨pairs, paired, read⟩ := @exists_paired _ entryOf (marked .removed changes) (marked .added changes)
  rw [map_marked, map_marked] at read
  have told : renames changes = pairs.map fun p => ((entryOf p.1).path, (entryOf p.2).path) := read
  refine ⟨places pairs, inTurn_of_matched paired.places_ordered fun _ _ => paired.mem_places, ?_, ?_⟩
  · rw [told, places, List.map_map, List.map_map]
    refine List.map_congr_left fun p listed => ?_
    obtain ⟨key, listed⟩ := paired.mem_iff.mp listed
    obtain ⟨gone, come⟩ := List.of_mem_zip listed
    exact (Prod.ext (pathAt?_of_marked (List.mem_filter.mp gone).1)
      (pathAt?_of_marked (List.mem_filter.mp come).1)).symm
  · rw [told, List.length_map, paired.length_eq (changes.map fun c => likeness c.entry).toFinset]
    · simp only [positions_eq, List.length_map]
    · intro c listed
      have here := List.mem_of_getElem? (getElem?_of_marked listed)
      exact List.mem_toFinset.mpr (List.mem_map.mpr ⟨c.1, here, rfl⟩)

-- An addition that comes first, three directories that are all alike, and a file of the same size.
example :
    let directory (name : String) : Entry := ⟨.ofString name, true, none, 0⟩
    let file (name : String) : Entry := ⟨.ofString name, false, none, 0⟩
    renames [added (directory "a"), removed (file "b"), modified (file "c"), removed (directory "d"),
      added (directory "e"), removed (directory "f"), removed (directory "g")] =
      [(.ofString "d", .ofString "a"), (.ofString "f", .ofString "e")] := by
  decide

end DirWatch.Change
