import CodeGraph.Syntax.Layout
import CodeGraph.Syntax.Tree

namespace CodeGraph.Syntax

/-! Grammar rules as functions on the tokens that are left.  A rule gives pieces: a tree with the
comments and line continuations in front of it.  These belong to the innermost node that has a
token on either side of them, so a node takes up what stands between its pieces and hands on what
stands before its first. -/

structure Piece where
  extras : List SyntaxTree := []
  tree : SyntaxTree
deriving Repr, Inhabited

namespace Piece

def withRole (role : Role) (piece : Piece) : Piece :=
  { piece with tree := piece.tree.withRole role }

def withKind (kind : Kind) (piece : Piece) : Piece :=
  { piece with tree := piece.tree.withKind kind }

def flatten (piece : Piece) : List SyntaxTree :=
  piece.extras ++ [piece.tree]

end Piece

/-- What the rules look at: the text, and a bound on the number of lexemes. -/
structure Source where
  text : String
  bound : Nat

/-- The tokens left, and the end of the lexeme taken last. -/
structure Stream where
  tokens : List Token
  last : Position := .origin

abbrev Rule := ReaderT Source (StateT Stream Option)

namespace Rule

def peek : Rule Token := do
  match (← get).tokens with
  | token :: _ => pure token
  | [] => failure

def peekSecond : Rule Token := do
  match (← get).tokens with
  | _ :: token :: _ => pure token
  | _ => failure

def slice (start stop : Position) : Rule String := do
  pure (String.Pos.Raw.extract (← read).text ⟨start.offset⟩ ⟨stop.offset⟩)

def leaf (kind : Kind) (text : String) (start stop : Position) : SyntaxTree :=
  .node kind none start stop text []

def ofExtra (extra : Extra) : SyntaxTree :=
  leaf (if extra.isComment then .comment else .lineContinuation) extra.text extra.start extra.stop

/-- Takes the next token as a leaf. -/
def take (kind : Kind) : Rule Piece := do
  match (← get).tokens with
  | token :: rest =>
      set { tokens := rest, last := token.stop : Stream }
      pure
        { extras := token.extras.map ofExtra
          tree := leaf kind token.text token.start token.stop }
  | [] => failure

/-- Takes only the first comment or line continuation before the next token. -/
def takeExtra? : Rule (Option Piece) := do
  match (← get).tokens with
  | token :: rest =>
      match token.extras with
      | extra :: extras =>
          set { tokens := { token with extras } :: rest, last := extra.stop : Stream }
          pure (some { tree := ofExtra extra })
      | [] => pure none
  | [] => pure none

def check (condition : Bool) : Rule Unit :=
  if condition then pure () else failure

def symbol (text : String) : Rule Piece := do
  check ((← peek).isSymbol text)
  take .token

def keyword (text : String) : Rule Piece := do
  check ((← peek).isWord text)
  take .token

def lexeme (lexeme : Lexeme) (kind : Kind) : Rule Piece := do
  check ((← peek).lexeme == lexeme)
  take kind

/-- Any word as a name, a keyword too: for places where nothing but a name can stand. -/
def anyName : Rule Piece := lexeme .word .identifier

/-- The next token continues the construct at hand: it stands on the same line, or `inside` says
that a line break cannot end the construct. -/
def continues (inside : Bool) : Rule Bool := do
  pure (inside || !(← peek).startsLine)

def nextIsSymbol (inside : Bool) (text : String) : Rule Bool := do
  pure ((← peek).isSymbol text && (← continues inside))

def nextIsWord (inside : Bool) (text : String) : Rule Bool := do
  pure ((← peek).isWord text && (← continues inside))

/-- The node over the given pieces, which must be at least one. -/
def node (kind : Kind) (pieces : List Piece) : Rule Piece := do
  match pieces with
  | [] => failure
  | first :: rest =>
      let children := first.tree :: rest.flatMap Piece.flatten
      let start := first.tree.start
      let stop := (children.getLast?.map SyntaxTree.stop).getD start
      pure
        { extras := first.extras
          tree := .node kind none start stop (← slice start stop) children }

/-- A node without text at the end of what was taken last. -/
def emptyNode (kind : Kind) : Rule Piece := do
  let place := (← get).last
  pure { tree := leaf kind "" place place }

/-- Runs the rule, or gives nothing and takes nothing where it does not apply. -/
def attempt {α : Type} (rule : Rule α) : Rule (Option α) :=
  (some <$> rule) <|> pure none

/-- The pieces of the rule where it applies, and none elsewhere. -/
def orNone (rule : Rule (List Piece)) : Rule (List Piece) :=
  rule <|> pure []

def manyUpTo (rule : Rule (List Piece)) : Nat → List (List Piece) → Rule (List Piece)
  | 0, done => pure done.reverse.flatten
  | fuel + 1, done => do
      match ← attempt rule with
      | some pieces => manyUpTo rule fuel (pieces :: done)
      | none => pure done.reverse.flatten

/-- Repeats a rule that takes at least one lexeme until it does not apply. -/
def many (rule : Rule (List Piece)) : Rule (List Piece) := do
  manyUpTo rule (← read).bound []

/-- One or more items with commas between them. -/
def commaSeparated (inside : Bool) (item : Rule Piece) : Rule (List Piece) := do
  let first ← item
  let rest ← many do
    check (← nextIsSymbol inside ",")
    pure [← symbol ",", ← item]
  pure (first :: rest)

def optionalSymbol (inside : Bool) (text : String) : Rule (List Piece) :=
  orNone do
    check (← nextIsSymbol inside text)
    pure [← symbol text]

/-- A list between brackets, whose items and last comma may be missing. -/
def bracketed (opening closing : String) (item : Rule Piece) : Rule (List Piece) := do
  let opened ← symbol opening
  let items ← orNone (commaSeparated true item)
  let comma ← optionalSymbol true ","
  pure (opened :: items ++ comma ++ [← symbol closing])

end Rule

end CodeGraph.Syntax
