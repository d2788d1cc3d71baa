import CodeGraph.Count
import CodeGraph.Syntax.Grammar.Statement
import CodeGraph.Syntax.Scan

namespace CodeGraph.Syntax

/-! From a text to its syntax tree. -/

/-- One layer of the grammar, given the constructs inside of it. -/
def ruleOf (derive : Derive) : Goal → Rule (List Piece)
  | .expression least inside => do pure [← Rule.expressionRule derive least inside]
  | .primary inside => do pure [← Rule.primaryRule derive inside]
  | .interpolation => do pure [← Rule.interpolationWith derive (Rule.fieldValue derive)]
  | .casePattern => do pure [← Rule.casePatternRule derive]
  | .statement indent => Rule.statementRule derive indent

/-- The grammar with constructs nested at most `depth` deep. -/
def grammar : Nat → Derive
  | 0, _ => failure
  | depth + 1, goal => ruleOf (grammar depth) goal

/-- The statements of a text up to its end. -/
def moduleRule (derive : Derive) : Rule (List Piece) := do
  let pieces ← Rule.statements derive 0 []
  let last ← Rule.lexeme .finish .token
  pure (pieces ++ last.extras.map fun tree => { tree := tree })

/-- The syntax tree of a text, unless the text is outside of the grammar.  Its root runs from the
first lexeme to the end of the text.  Every construct that holds another one takes a token of its
own or is one of a few that do not, so the number of lexemes bounds the nesting. -/
def parse? (text : String) : Option SyntaxTree := do
  let characters := text.toList
  let tokens := tokensOf characters
  let bound := sumOf (tokens.map Token.lexemes) + 1
  let (pieces, _) ←
    (moduleRule (grammar (4 * bound))).run { text, bound } |>.run { tokens := tokens }
  let children := pieces.flatMap Piece.flatten
  let stop := Position.origin.afterAll characters
  let start := (children.head?.map SyntaxTree.start).getD stop
  pure (.node .root none start stop
    (String.Pos.Raw.extract text ⟨start.offset⟩ ⟨stop.offset⟩) children)

end CodeGraph.Syntax
