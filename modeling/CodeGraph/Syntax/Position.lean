namespace CodeGraph.Syntax

/-- A place in a text: the byte offset, the row, and the byte column in that row, each counted
from zero. -/
structure Position where
  offset : Nat
  row : Nat
  column : Nat
deriving DecidableEq, Repr, Inhabited

namespace Position

def origin : Position := ⟨0, 0, 0⟩

/-- The place after one character; only a line feed starts a new row. -/
def after (place : Position) (c : Char) : Position :=
  if c = '\n' then ⟨place.offset + 1, place.row + 1, 0⟩
  else ⟨place.offset + c.utf8Size, place.row, place.column + c.utf8Size⟩

def afterAll (place : Position) (text : List Char) : Position :=
  text.foldl after place

@[simp] theorem afterAll_nil (place : Position) : place.afterAll [] = place := rfl

@[simp] theorem afterAll_cons (place : Position) (c : Char) (text : List Char) :
    place.afterAll (c :: text) = (place.after c).afterAll text := rfl

end Position

end CodeGraph.Syntax
