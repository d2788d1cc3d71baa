namespace CodeGraph.Text

/-! Splitting and joining texts at a separator. -/

/-- The parts between separators, in order; there is always at least one. -/
def splitAt (separator : Char) : List Char → List (List Char)
  | [] => [[]]
  | c :: rest =>
      if c = separator then [] :: splitAt separator rest
      else
        match splitAt separator rest with
        | [] => [[c]]
        | part :: parts => (c :: part) :: parts

/-- What stands behind the last separator. -/
def afterLast (separator : Char) (text : List Char) : List Char :=
  (text.reverse.takeWhile (· ≠ separator)).reverse

/-- What stands before the first separator. -/
def beforeFirst (separator : Char) (text : List Char) : List Char :=
  text.takeWhile (· ≠ separator)

def replaceChar (old new : Char) (text : List Char) : List Char :=
  text.map fun c => if c = old then new else c

/-- The last part of a dotted name. -/
def lastSegment (name : String) : String :=
  String.ofList (afterLast '.' name.toList)

/-- A path with forward slashes only. -/
def forwardSlashes (path : String) : String :=
  String.ofList (replaceChar '\\' '/' path.toList)

end CodeGraph.Text
