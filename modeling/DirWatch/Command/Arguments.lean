import DirWatch.Path.Basic

namespace DirWatch

structure Arguments where
  recursive : Bool
  config : Option Path
  json : Bool
  paths : List Path
deriving DecidableEq, Repr

namespace Arguments

inductive Misuse
  | missingPath
  | unknownOption
  | missingValue
  | surplusValue
  | repeatedOption
deriving DecidableEq, Repr

-- Why there are no arguments to run with: they only ask for a text, or they are wrong.
inductive Stop
  | help
  | version
  | misuse (m : Misuse)
deriving DecidableEq, Repr

-- What was begun and is not settled yet: the settings file, perhaps without its name, or some paths.
inductive Pending
  | nothing
  | config (name : Option String)
  | paths (names : List String)
deriving DecidableEq, Repr

structure Draft where
  settled : Arguments
  pending : Pending
deriving DecidableEq, Repr

def fresh : Arguments := ⟨true, none, false, []⟩

def withConfig (a : Arguments) (name : String) : Except Stop Arguments :=
  if a.config.isSome then .error (.misuse .repeatedOption)
  else if name.isEmpty then .error (.misuse .missingValue)
  else .ok { a with config := some (.ofString name) }

def Draft.settle (d : Draft) : Except Stop Arguments :=
  match d.pending with
  | .nothing => .ok d.settled
  | .config none => .error (.misuse .missingValue)
  | .config (some name) => d.settled.withConfig name
  | .paths names =>
    if names.contains "" then .error (.misuse .missingValue)
    else .ok { d.settled with paths := d.settled.paths ++ names.map Path.ofString }

inductive Switch
  | shallow
  | json
  | help
  | version
deriving DecidableEq, Repr

def Switch.ofName? (name : String) : Option Switch :=
  if name = "non-recursive" then some shallow
  else if name = "json" then some json
  else if name = "help" then some help
  else if name = "version" then some version
  else none

def turn (a : Arguments) : Switch → Except Stop Arguments
  | .shallow => if a.recursive then .ok { a with recursive := false } else .error (.misuse .repeatedOption)
  | .json => if a.json then .error (.misuse .repeatedOption) else .ok { a with json := true }
  | .help => .error .help
  | .version => .error .version

def Draft.long (d : Draft) (text : List Char) : Except Stop Draft :=
  let (name, rest) := text.span (· != '=')
  let name := String.ofList name
  if name = "config" then do
    let settled ← d.settle
    match rest with
    | [] => .ok ⟨settled, .config none⟩
    | _ :: value => .ok ⟨← settled.withConfig (String.ofList value), .nothing⟩
  else
    match Switch.ofName? name, rest with
    | none, _ => .error (.misuse .unknownOption)
    | some _, _ :: _ => .error (.misuse .surplusValue)
    | some s, [] => do .ok ⟨← (← d.settle).turn s, .nothing⟩

-- Options of one letter. Each of them is answered with a text, so the first one decides.
def Draft.short (d : Draft) (letter : Char) : Except Stop Draft :=
  let asked : Option Switch :=
    if letter = 'h' then some .help
    else if letter = 'V' then some .version
    else none
  match asked with
  | some s => do .ok ⟨← (← d.settle).turn s, .nothing⟩
  | none => .error (.misuse .unknownOption)

def Draft.path (d : Draft) (name : String) : Except Stop Draft :=
  match d.pending with
  | .paths names => .ok ⟨d.settled, .paths (names ++ [name])⟩
  | _ => do .ok ⟨← d.settle, .paths [name]⟩

-- A word that is no option: the name of the settings file if that is awaited, else a path.
def Draft.word (d : Draft) (name : String) : Except Stop Draft :=
  match d.pending with
  | .config none => .ok ⟨d.settled, .config (some name)⟩
  | _ => d.path name

def readPaths (d : Draft) : List String → Except Stop Draft
  | [] => .ok d
  | arg :: rest => do readPaths (← d.path arg) rest

def read (d : Draft) : List String → Except Stop Draft
  | [] => .ok d
  | arg :: rest =>
    match arg.toList with
    | ['-', '-'] => readPaths d rest
    | '-' :: '-' :: text => do read (← d.long text) rest
    | '-' :: letter :: _ => do read (← d.short letter) rest
    | _ => do read (← d.word arg) rest

-- Of two mistakes the first is told, except that an option nobody knows is told before a value that is
-- missing right in front of it.
def parse (args : List String) : Except Stop Arguments := do
  let a ← (← read ⟨.fresh, .nothing⟩ args).settle
  if a.paths.isEmpty then .error (.misuse .missingPath) else .ok a

end Arguments

end DirWatch
