import CodeGraph.Syntax.Position

namespace CodeGraph.Syntax

/-! Tokens with the layout that stands before them. -/

/-- The blanks before a lexeme, as indentation is measured.  A line feed, a carriage return or a
form feed restarts the count, a tab counts eight columns, and any other blank ends it. -/
structure Gap where
  breaks : Bool := false
  resets : Bool := false
  width : Nat := 0
  closed : Bool := false
deriving DecidableEq, Repr, Inhabited

def Gap.add (gap : Gap) (c : Char) : Gap :=
  if gap.closed then gap
  else if c = '\n' then { gap with breaks := true, resets := true, width := 0 }
  else if c = '\r' || c = '\x0c' then { gap with resets := true, width := 0 }
  else if c = ' ' then { gap with width := gap.width + 1 }
  else if c = '\t' then { gap with width := gap.width + 8 }
  else { gap with closed := true }

/-- A lexeme the grammar does not ask for: a comment or a line continuation. -/
structure Extra where
  gap : Gap
  isComment : Bool
  text : String
  start : Position
  stop : Position
deriving Repr, Inhabited

inductive Lexeme where
  | word
  | integer
  | float
  | symbol
  | stringStart
  | stringContent
  | stringEnd
  | fieldStart
  | fieldEnd
  | conversion
  | specStart
  | finish
deriving DecidableEq, Repr, Inhabited

structure Token where
  extras : List Extra := []
  gap : Gap := {}
  lexeme : Lexeme
  text : String
  start : Position
  stop : Position
deriving Repr, Inhabited

namespace Token

def isWord (token : Token) (text : String) : Bool :=
  token.lexeme == .word && token.text == text

def isSymbol (token : Token) (text : String) : Bool :=
  token.lexeme == .symbol && token.text == text

/-- The number of lexemes the token brings: itself, and the comments and line continuations in
front of it. -/
def lexemes (token : Token) : Nat :=
  token.extras.length + 1

/-- A line break, or the end of the text, separates the token from what stands before it. -/
def startsLine (token : Token) : Bool :=
  token.lexeme == .finish || token.gap.breaks || token.extras.any fun extra => extra.gap.breaks

end Token

end CodeGraph.Syntax
