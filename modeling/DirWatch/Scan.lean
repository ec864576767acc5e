import DirWatch.Disk.Lookup
import DirWatch.Settings
import DirWatch.Snapshot.Basic

namespace DirWatch

def Entry.ofNode (path : Path) (node : Node) : Entry :=
  ⟨path, node.isDir, some node.written, node.size⟩

def Scope.keeps? (scope : Scope) (root full : Path) : Option Path :=
  match full.relativeTo? root with
  | some path => if scope.excludes.excludes path then none else some path
  | none => none

-- The directory being walked: its full path, its place, the places that the walk is inside of, that
-- of the directory first, and how many links a lookup below it may still follow.
structure Spot where
  path : Path
  place : Place
  around : List Place
  budget : Nat
deriving DecidableEq, Repr

namespace Spot

def pathOf (s : Spot) (n : Name) : Path := s.path.join (.ofName n)

def enter (s : Spot) (n : Name) (place : Place) (budget : Nat) : Spot :=
  ⟨s.pathOf n, place, place :: s.around, budget⟩

end Spot

-- The entries of a listing and, in a recursive scope, of the directories in it. `behind` says what a
-- followed link stands for.
def Listing.walk (scope : Scope) (root : Path) (behind : Spot → Name → Path → List Entry) :
    Spot → Listing → List Entry
  | _, .done => []
  | spot, .file n size t rest =>
    (match scope.keeps? root (spot.pathOf n) with
      | some path => [.ofNode path (.file size t)]
      | none => []) ++ walk scope root behind spot rest
  | spot, .link n target t rest =>
    (match scope.keeps? root (spot.pathOf n) with
      | some path => if scope.followLinks then behind spot n path else [.ofNode path (.link target t)]
      | none => []) ++ walk scope root behind spot rest
  | spot, .dir n t inside rest =>
    (match scope.keeps? root (spot.pathOf n) with
      | some path =>
        .ofNode path (.dir t inside) ::
          if scope.recursive then
            walk scope root behind (spot.enter n (spot.place ++ [n]) spot.budget) inside
          else []
      | none => []) ++ walk scope root behind spot rest

namespace Disk

-- What the link `n` stands for: the entry it leads to, and what a directory there holds. A link back to
-- a directory that the walk is inside of is left out.
def behindLink (d : Disk) (scope : Scope) (walk : Spot → Listing → List Entry)
    (spot : Spot) (n : Name) (path : Path) : List Entry :=
  match d.resolve true spot.budget spot.place [.down n] with
  | .error _ => []
  | .ok ⟨place, .dir t inside, budget⟩ =>
    if spot.around.contains place then []
    else
      .ofNode path (.dir t inside) ::
        if scope.recursive then walk (spot.enter n place budget) inside else []
  | .ok ⟨_, node, _⟩ => [.ofNode path node]

-- A walk that follows at most `links` links within links, which is enough if the spot's budget is no
-- greater.
def walk (d : Disk) (scope : Scope) (root : Path) : Nat → Spot → Listing → List Entry
  | 0 => Listing.walk scope root fun _ _ _ => []
  | links + 1 => Listing.walk scope root (d.behindLink scope (d.walk scope root links))

def entriesBelow (d : Disk) (scope : Scope) (root base : Path) : Except LookupError (List Entry) :=
  match d.lookup base true with
  | .error e => .error e
  | .ok ⟨place, .dir _ inside, budget⟩ =>
    .ok (d.walk scope root linkBudget ⟨base, place, [place], budget⟩ inside)
  | .ok _ => .error .notDirectory

def stat (d : Disk) (root path : Path) (follow : Bool) : Except LookupError Entry :=
  (d.lookup (root.join path) follow).map fun found => .ofNode path found.node

end Disk

namespace Snapshot

-- Takes entries in, replacing those already there, and tells the paths that are new.
def absorb (s : Snapshot) : List Entry → Snapshot × List Path
  | [] => (s, [])
  | e :: rest =>
    let (t, added) := (s.insert e).absorb rest
    (t, if s.contains e.path then added else e.path :: added)

-- Scans what is at `path` below the root into the snapshot; `path` itself is not taken in. The directory is read
-- before anything is taken in, so a scan that fails has not changed the snapshot, and none is returned.
def scanInto (s : Snapshot) (d : Disk) (scope : Scope) (path : Path) :
    Except MonitorError (Snapshot × List Path) :=
  match d.entriesBelow scope s.root (s.root.join path) with
  | .ok entries => .ok (s.absorb entries)
  | .error e => .error (.ofRootFault (s.root.join path) e.fault)

def scan (d : Disk) (scope : Scope) (root : Path) : Except MonitorError Snapshot :=
  match d.lookup root true with
  | .error e => .error (.ofRootFault root e.fault)
  | .ok found =>
    if found.node.isDir then ((empty root).scanInto d scope .empty).map Prod.fst
    else .error (.notADirectory root.display)

end Snapshot

end DirWatch
