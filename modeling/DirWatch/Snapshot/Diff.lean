import DirWatch.Change
import DirWatch.Snapshot.Basic

namespace DirWatch.Snapshot

-- One path in both. An entry that became another kind of thing is removed and added again.
def compareEntries (o n : Entry) : List Change :=
  if o.isDirectory != n.isDirectory then [.removed o, .added n]
  else if o.differs n then [.modified n]
  else []

-- The walk over the new entries while `o` is the next old one; `later` goes on with the old ones
-- after it.
def mergeFrom (o : Entry) (later : List Entry → List Change) : List Entry → List Change
  | [] => .removed o :: later []
  | n :: news =>
    match compare o n with
    | .lt => .removed o :: later (n :: news)
    | .gt => .added n :: mergeFrom o later news
    | .eq => compareEntries o n ++ later news

def merge : List Entry → List Entry → List Change
  | [] => fun news => news.map .added
  | o :: olds => mergeFrom o (merge olds)

def diff (s t : Snapshot) : List Change := merge s.entries t.entries

def agrees (s t : Snapshot) : Bool := (s.diff t).isEmpty

def replay (s : Snapshot) (c : Change) : Snapshot :=
  match c.kind with
  | .added | .modified => s.insert c.entry
  | .removed => s.remove c.path

def replayAll (s : Snapshot) (cs : List Change) : Snapshot := cs.foldl replay s

end DirWatch.Snapshot
