import DirWatch.Path.Basic
import DirWatch.Time.Instant

namespace DirWatch

namespace Name

def isStorable (n : Name) : Bool := !n.bytes.contains 0 && n.bytes.length ≤ 255

def after : Option Name → Name → Bool
  | none, _ => true
  | some m, n => compare m n == .lt

end Name

instance : Std.TransOrd Name := inferInstanceAs (Std.TransCmp (compareOn Name.bytes))

instance : Std.LawfulEqOrd Name where
  eq_of_compare {a b} h := by
    have h : compare a.bytes b.bytes = .eq := h
    have h := Std.LawfulEqOrd.eq_of_compare h
    cases a; cases b; simp_all

inductive Listing
  | done
  | file (name : Name) (size : UInt64) (written : Instant) (rest : Listing)
  | link (name : Name) (target : Path) (written : Instant) (rest : Listing)
  | dir (name : Name) (written : Instant) (inside rest : Listing)
deriving DecidableEq, Repr

inductive Node
  | file (size : UInt64) (written : Instant)
  | link (target : Path) (written : Instant)
  | dir (written : Instant) (inside : Listing)
deriving DecidableEq, Repr

namespace Node

def isDir : Node → Bool
  | dir .. => true
  | _ => false

def written : Node → Instant
  | file _ t => t
  | link _ t => t
  | dir t _ => t

def withWritten (t : Instant) : Node → Node
  | file size _ => file size t
  | link target _ => link target t
  | dir _ inside => dir t inside

-- A link is as long as its target; a directory counts as nothing.
def size : Node → UInt64
  | file size _ => size
  | link target _ => UInt64.ofNat target.bytes.length
  | dir .. => 0

end Node

namespace Listing

def cons (n : Name) (node : Node) (rest : Listing) : Listing :=
  match node with
  | .file size t => file n size t rest
  | .link target t => link n target t rest
  | .dir t inside => dir n t inside rest

def find? (n : Name) : Listing → Option Node
  | done => none
  | file m size t rest => if m = n then some (.file size t) else rest.find? n
  | link m target t rest => if m = n then some (.link target t) else rest.find? n
  | dir m t inside rest => if m = n then some (.dir t inside) else rest.find? n

-- Puts `node` before `l`, whose first entry `here` is called `m`, in its place, or hands on to what
-- follows.
def place (n : Name) (node : Node) (m : Name) (l rest placed : Listing) (here : Node) : Listing :=
  match compare n m with
  | .lt => cons n node l
  | .eq => cons n node rest
  | .gt => cons m here placed

def set (n : Name) (node : Node) : Listing → Listing
  | done => cons n node done
  | file m size t rest => place n node m (file m size t rest) rest (rest.set n node) (.file size t)
  | link m target t rest => place n node m (link m target t rest) rest (rest.set n node) (.link target t)
  | dir m t inside rest => place n node m (dir m t inside rest) rest (rest.set n node) (.dir t inside)

def erase (n : Name) : Listing → Listing
  | done => done
  | file m size t rest => if m = n then rest else file m size t (rest.erase n)
  | link m target t rest => if m = n then rest else link m target t (rest.erase n)
  | dir m t inside rest => if m = n then rest else dir m t inside (rest.erase n)

def isEmpty : Listing → Bool
  | done => true
  | _ => false

def orderedAfter : Option Name → Listing → Bool
  | _, done => true
  | low, file n _ _ rest => n.after low && n.isStorable && rest.orderedAfter (some n)
  | low, link n _ _ rest => n.after low && n.isStorable && rest.orderedAfter (some n)
  | low, dir n _ inside rest =>
    n.after low && n.isStorable && inside.orderedAfter none && rest.orderedAfter (some n)

-- Names increase strictly, here and in every directory below, so that a walk meets the entries in the
-- order of their paths; and all of them can be stored.
def Ordered (l : Listing) : Prop := l.orderedAfter none = true

instance (l : Listing) : Decidable l.Ordered := inferInstanceAs (Decidable (_ = true))

end Listing

def Node.Ordered : Node → Prop
  | .dir _ inside => inside.Ordered
  | _ => True

namespace Listing

theorem orderedAfter_cons {low : Option Name} {n : Name} {node : Node} {rest : Listing} :
    (cons n node rest).orderedAfter low = true ↔
      n.after low = true ∧ n.isStorable = true ∧ node.Ordered ∧ rest.orderedAfter (some n) = true := by
  cases node <;> simp [cons, orderedAfter, Node.Ordered, Ordered, and_assoc]

theorem after_trans {low : Option Name} {m n : Name} (hm : m.after low = true)
    (hn : n.after (some m) = true) : n.after low = true := by
  cases low with
  | none => rfl
  | some l =>
    simp only [Name.after, beq_iff_eq] at *
    exact Std.TransCmp.lt_trans hm hn

theorem orderedAfter_lower {low : Option Name} {m : Name} {l : Listing} (hm : m.after low = true)
    (h : l.orderedAfter (some m) = true) : l.orderedAfter low = true := by
  cases l <;> simp_all [orderedAfter] <;> exact after_trans hm (by simp_all)

theorem orderedAfter_place (here : Node) {low : Option Name} {n m : Name} {node : Node}
    {rest placed : Listing}
    (hn : n.after low = true) (hs : n.isStorable = true) (ho : node.Ordered)
    (h : (cons m here rest).orderedAfter low = true)
    (hp : n.after (some m) = true → placed.orderedAfter (some m) = true) :
    (place n node m (cons m here rest) rest placed here).orderedAfter low = true := by
  obtain ⟨hm, hms, hmo, hr⟩ := orderedAfter_cons.mp h
  unfold place
  split
  · rename_i lt
    refine orderedAfter_cons.mpr ⟨hn, hs, ho, orderedAfter_cons.mpr ⟨?_, hms, hmo, hr⟩⟩
    simp [Name.after, lt]
  · rename_i eq
    obtain rfl := Std.LawfulEqOrd.eq_of_compare eq
    exact orderedAfter_cons.mpr ⟨hn, hs, ho, hr⟩
  · rename_i gt
    refine orderedAfter_cons.mpr ⟨hm, hms, hmo, hp ?_⟩
    simp [Name.after, Std.OrientedCmp.lt_of_gt gt]

theorem orderedAfter_rest (here : Node) {low : Option Name} {m : Name} {rest : Listing}
    (h : (cons m here rest).orderedAfter low = true) : rest.orderedAfter (some m) = true :=
  (orderedAfter_cons.mp h).2.2.2

theorem orderedAfter_set {low : Option Name} {n : Name} {node : Node} {l : Listing}
    (hn : n.after low = true) (hs : n.isStorable = true) (ho : node.Ordered)
    (h : l.orderedAfter low = true) : (l.set n node).orderedAfter low = true := by
  induction l generalizing low with
  | done => exact orderedAfter_cons.mpr ⟨hn, hs, ho, rfl⟩
  | file m size t rest ih =>
    exact orderedAfter_place (.file size t) hn hs ho h fun g => ih g (orderedAfter_rest (.file size t) h)
  | link m target t rest ih =>
    exact orderedAfter_place (.link target t) hn hs ho h fun g => ih g (orderedAfter_rest (.link target t) h)
  | dir m t inside rest _ ih =>
    exact orderedAfter_place (.dir t inside) hn hs ho h fun g => ih g (orderedAfter_rest (.dir t inside) h)

theorem orderedAfter_drop (here : Node) {low : Option Name} {m : Name} {rest : Listing}
    (h : (cons m here rest).orderedAfter low = true) : rest.orderedAfter low = true :=
  orderedAfter_lower (orderedAfter_cons.mp h).1 (orderedAfter_rest here h)

theorem orderedAfter_erase {low : Option Name} {n : Name} {l : Listing}
    (h : l.orderedAfter low = true) : (l.erase n).orderedAfter low = true := by
  induction l generalizing low with
  | done => exact h
  | file m size t rest ih =>
    unfold erase
    split
    · exact orderedAfter_drop (.file size t) h
    · simp_all [orderedAfter]
  | link m target t rest ih =>
    unfold erase
    split
    · exact orderedAfter_drop (.link target t) h
    · simp_all [orderedAfter]
  | dir m t inside rest _ ih =>
    unfold erase
    split
    · exact orderedAfter_drop (.dir t inside) h
    · simp_all [orderedAfter]

theorem ordered_done : Ordered done := rfl

theorem ordered_set {n : Name} {node : Node} {l : Listing} (hs : n.isStorable = true)
    (ho : node.Ordered) (h : l.Ordered) : (l.set n node).Ordered := orderedAfter_set rfl hs ho h

theorem ordered_erase {n : Name} {l : Listing} (h : l.Ordered) : (l.erase n).Ordered :=
  orderedAfter_erase h

theorem ordered_find? {low : Option Name} {n : Name} {l : Listing} {node : Node}
    (h : l.orderedAfter low = true) (found : l.find? n = some node) :
    node.Ordered ∧ n.isStorable = true := by
  induction l generalizing low with
  | done => cases found
  | file m size t rest ih =>
    simp only [orderedAfter, Bool.and_eq_true] at h
    unfold find? at found
    split at found
    · cases found; simp_all [Node.Ordered]
    · exact ih h.2 found
  | link m target t rest ih =>
    simp only [orderedAfter, Bool.and_eq_true] at h
    unfold find? at found
    split at found
    · cases found; simp_all [Node.Ordered]
    · exact ih h.2 found
  | dir m t inside rest _ ih =>
    simp only [orderedAfter, Bool.and_eq_true] at h
    unfold find? at found
    split at found
    · cases found; simp_all [Node.Ordered, Ordered]
    · exact ih h.2 found

end Listing

-- The top directory, and what it holds. There are no permissions, no bound on the length of a whole path and
-- no failing devices, so every directory that is found can also be read.
structure Disk where
  written : Instant
  top : Listing
  ordered : top.Ordered
deriving DecidableEq, Repr

-- A place is named by the way down to it from the top.
abbrev Place := List Name

namespace Node

def at? : Place → Node → Option Node
  | [], node => some node
  | n :: rest, .dir _ inside =>
    match inside.find? n with
    | some node => at? rest node
    | none => none
  | _ :: _, _ => none

end Node

namespace Disk

def node (d : Disk) : Node := .dir d.written d.top

def at? (d : Disk) (place : Place) : Option Node := d.node.at? place

end Disk

end DirWatch
