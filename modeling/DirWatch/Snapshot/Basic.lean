import DirWatch.Entry

namespace DirWatch

namespace Snapshot

structure Item where
  key : Path
  entry : Entry
deriving DecidableEq, Repr

def Ordered (items : List Item) : Prop :=
  items.Pairwise fun a b => compare a.key b.key = .lt

instance (items : List Item) : Decidable (Ordered items) :=
  inferInstanceAs (Decidable (items.Pairwise _))

end Snapshot

-- A map from paths to entries, in the order of the paths. The spelling that a path had first stays as
-- its key.
structure Snapshot where
  root : Path
  items : List Snapshot.Item
  ordered : Snapshot.Ordered items
deriving DecidableEq, Repr

namespace Snapshot

def empty (root : Path) : Snapshot := ⟨root, [], List.Pairwise.nil⟩

def put (e : Entry) (key : Path) : List Item → List Item
  | [] => [⟨key, e⟩]
  | item :: rest =>
    match compare key item.key with
    | .lt => ⟨key, e⟩ :: item :: rest
    | .eq => ⟨item.key, e⟩ :: rest
    | .gt => item :: put e key rest

def find? (path : Path) (items : List Item) : Option Item :=
  items.find? fun item => compare path item.key == .eq

theorem mem_put {e : Entry} {key : Path} {items : List Item} {item : Item}
    (h : item ∈ put e key items) :
    compare key item.key = .eq ∨ ∃ old ∈ items, old.key = item.key := by
  induction items with
  | nil => simp [put] at h; subst h; simp
  | cons first rest ih =>
    simp only [put] at h
    split at h
    · rename_i before
      rcases List.mem_cons.mp h with rfl | h
      · simp
      · exact .inr ⟨item, h, rfl⟩
    · rename_i here
      rcases List.mem_cons.mp h with rfl | h
      · exact .inl here
      · exact .inr ⟨item, List.mem_cons_of_mem _ h, rfl⟩
    · rename_i after
      rcases List.mem_cons.mp h with rfl | h
      · exact .inr ⟨item, List.mem_cons_self, rfl⟩
      · rcases ih h with h | ⟨old, mem, same⟩
        · exact .inl h
        · exact .inr ⟨old, List.mem_cons_of_mem _ mem, same⟩

theorem ordered_put {e : Entry} {key : Path} {items : List Item} (h : Ordered items) :
    Ordered (put e key items) := by
  induction items with
  | nil => simp [put, Ordered]
  | cons first rest ih =>
    obtain ⟨before, tail⟩ := List.pairwise_cons.mp h
    simp only [put]
    split
    · rename_i lt
      refine List.pairwise_cons.mpr ⟨fun item mem => ?_, h⟩
      rcases List.mem_cons.mp mem with rfl | mem
      · exact lt
      · exact Std.TransCmp.lt_trans lt (before item mem)
    · exact List.pairwise_cons.mpr ⟨before, tail⟩
    · rename_i gt
      refine List.pairwise_cons.mpr ⟨fun item mem => ?_, ih tail⟩
      rcases mem_put mem with same | ⟨old, mem, same⟩
      · exact Std.TransCmp.lt_of_lt_of_eq (Std.OrientedCmp.lt_of_gt gt) same
      · exact same ▸ before old mem

theorem ordered_filter {p : Item → Bool} {items : List Item} (h : Ordered items) :
    Ordered (items.filter p) := List.Pairwise.filter p h

def entries (s : Snapshot) : List Entry := s.items.map Item.entry

def size (s : Snapshot) : Nat := s.items.length

def isEmpty (s : Snapshot) : Bool := s.items.isEmpty

def get? (s : Snapshot) (path : Path) : Option Entry := (find? path s.items).map Item.entry

def contains (s : Snapshot) (path : Path) : Bool := (s.get? path).isSome

-- Puts an entry under a key that may be another path than its own.
def insertAt (s : Snapshot) (key : Path) (e : Entry) : Snapshot :=
  ⟨s.root, put e key s.items, ordered_put s.ordered⟩

def insert (s : Snapshot) (e : Entry) : Snapshot := s.insertAt e.path e

def insertAll (s : Snapshot) (es : List Entry) : Snapshot := es.foldl insert s

def remove (s : Snapshot) (path : Path) : Snapshot :=
  ⟨s.root, s.items.filter fun item => compare path item.key != .eq, ordered_filter s.ordered⟩

def below (s : Snapshot) (dir : Path) : List Entry :=
  (s.items.filter fun item => item.key.startsWith dir && compare dir item.key != .eq).map Item.entry

-- The entry at `path` and all below it, the deepest first.
def subtree (s : Snapshot) (path : Path) : List Entry :=
  ((s.items.filter fun item => item.key.startsWith path).map Item.entry).reverse

def removeSubtree (s : Snapshot) (path : Path) : Snapshot :=
  ⟨s.root, s.items.filter fun item => !item.key.startsWith path, ordered_filter s.ordered⟩

end Snapshot

end DirWatch
