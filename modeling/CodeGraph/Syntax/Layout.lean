import CodeGraph.Syntax.Token

namespace CodeGraph.Syntax

/-! Layout: where a line ends, and when a block is closed. -/

/-- What indentation is measured on when the next token is looked for: whether a line break was
passed, the columns before the token, and the columns before the first comment passed. -/
structure Margin where
  breaks : Bool := false
  width : Nat := 0
  comment : Option Nat := none
deriving DecidableEq, Repr, Inhabited

namespace Margin

def pass (margin : Margin) (gap : Gap) : Margin :=
  { margin with
    breaks := margin.breaks || gap.breaks
    width := (if gap.resets then 0 else margin.width) + gap.width }

/-- Measures up to the token, or gives nothing when a comment on the same line comes first. -/
def measure (token : Token) (margin : Margin) : List Extra → Option Margin
  | [] =>
      let margin := margin.pass token.gap
      if token.lexeme == .finish then some { margin with breaks := true, width := 0 }
      else some margin
  | extra :: rest =>
      let margin := margin.pass extra.gap
      if extra.gap.closed then some margin
      else if extra.isComment then
        if margin.breaks then
          measure token { margin with width := 0, comment := margin.comment <|> some margin.width }
            rest
        else none
      else measure token margin rest

def before (token : Token) : Option Margin :=
  measure token {} token.extras

end Margin

namespace Token

/-- The layout closes a block of this indentation before the token and the comments in front of
it.  A comment that is indented like the block, or deeper, keeps it open. -/
def closes (token : Token) (indent : Nat) : Bool :=
  match Margin.before token with
  | some margin =>
      margin.breaks && margin.width < indent && margin.comment.all (· < indent)
  | none => false

/-- The token is reached without closing a block of this indentation, whichever of the comments
in front of it have been taken into the block. -/
def reachedThrough (token : Token) (indent : Nat) : List Extra → Bool
  | [] => !({ token with extras := [] }).closes indent
  | extra :: rest =>
      !({ token with extras := extra :: rest }).closes indent &&
        token.reachedThrough indent rest

def reachedIn (token : Token) (indent : Nat) : Bool :=
  token.reachedThrough indent token.extras

end Token

end CodeGraph.Syntax
