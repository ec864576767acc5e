namespace DirWatch.Text

inductive Alignment
  | left
  | right
  | centre
deriving DecidableEq, Repr

-- At least `width` characters. In the centre an odd filler goes to the right.
def align (how : Alignment) (filler : Char) (width : Nat) (text : List Char) : List Char :=
  let missing := width - text.length
  let before := match how with
    | .left => 0
    | .right => missing
    | .centre => missing / 2
  List.replicate before filler ++ text ++ List.replicate (missing - before) filler

def column (how : Alignment) (filler : Char) (width widest : Nat) (text : String) : String :=
  String.ofList (align how filler width (text.toList.take widest))

end DirWatch.Text
