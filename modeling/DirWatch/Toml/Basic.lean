namespace DirWatch

namespace Toml

-- `inline`: written out between braces, and closed. `header`: opened by a header of its own.
-- `implied`: only passed through by the header of another table. `dotted`: passed through by a key.
inductive Standing
  | inline
  | header
  | implied
  | dotted
deriving DecidableEq, Repr

end Toml

-- Floats and points in time keep their spelling. `tables` is an array of tables that headers append to.
inductive Toml
  | string (s : String)
  | integer (n : Int)
  | bool (b : Bool)
  | float (spelling : List Char)
  | time (spelling : List Char)
  | array (items : List Toml)
  | table (standing : Toml.Standing) (entries : List (String × Toml))
  | tables (all : List (List (String × Toml)))
deriving Repr

namespace Toml

abbrev Entries := List (String × Toml)

def alter (k : String) (f : Option Toml → Option Toml) : Entries → Option Entries
  | [] => (f none).map fun v => [(k, v)]
  | (j, v) :: rest =>
    if j = k then (f (some v)).map fun w => (j, w) :: rest
    else (alter k f rest).map ((j, v) :: ·)

def alterLast (f : Entries → Option Entries) : List Entries → Option (List Entries)
  | [] => none
  | [last] => (f last).map ([·])
  | t :: u :: rest => (alterLast f (u :: rest)).map (t :: ·)

-- Goes down to the table at a path and edits it there; `here` is the standing of the table where the
-- path starts. Tables on the way come about if they are missing. A key may not lead into a table that has
-- a header, and nothing may lead into a table between braces.
def descend (byKey : Bool) (f : Standing → Entries → Option Entries) :
    Standing → List String → Entries → Option Entries
  | here, [], entries => f here entries
  | _, k :: rest, entries =>
    entries |> alter k fun
      | none =>
        let passed := if byKey then .dotted else .implied
        (descend byKey f passed rest []).map (.table passed)
      | some (.table standing inside) =>
        if standing = .inline || (byKey && standing = .header) then none
        else (descend byKey f standing rest inside).map (.table standing)
      | some (.tables all) => (alterLast (descend byKey f .header rest) all).map .tables
      | some _ => none

def addNew (k : String) (v : Toml) : Entries → Option Entries :=
  alter k fun
    | none => some v
    | some _ => none

def define (path : List String) (k : String) (v : Toml) : Entries → Option Entries :=
  descend true
    (fun standing entries =>
      if (standing == .dotted) == path.isEmpty then none else addNew k v entries)
    .header path

-- Opens the table of a header; one that was only passed through so far keeps what it holds.
def openTable (path : List String) (k : String) : Entries → Option Entries :=
  descend false
    (fun _ => alter k fun
      | none => some (.table .header [])
      | some (.table .implied inside) => some (.table .header inside)
      | some _ => none)
    .header path

def openNext (path : List String) (k : String) : Entries → Option Entries :=
  descend false
    (fun _ => alter k fun
      | none => some (.tables [[]])
      | some (.tables all) => some (.tables (all ++ [[]]))
      | some _ => none)
    .header path

def inside (f : Entries → Option Entries) : List String → Entries → Option Entries
  | [], entries => f entries
  | k :: rest, entries =>
    entries |> alter k fun
      | some (.table standing inner) => (inside f rest inner).map (.table standing)
      | some (.tables all) => (alterLast (inside f rest) all).map .tables
      | _ => none

end Toml

end DirWatch
