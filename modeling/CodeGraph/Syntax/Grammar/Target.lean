import CodeGraph.Syntax.Tree

namespace CodeGraph.Syntax.SyntaxTree

/-! Assignment targets are written like expressions, and an expression turns out to be a target
only at the operator behind it. -/

mutual

/-- The expression read as an assignment target: a name, an attribute, a subscript, or a splat,
tuple or list of such. -/
def asTarget? : SyntaxTree → Option SyntaxTree
  | node kind role start stop text children =>
      match kind with
      | .identifier | .memberAccess | .subscript => some (node kind role start stop text children)
      | .listSplat => some (node .listSplatPattern role start stop text children)
      | .tuple | .parenthesizedExpression =>
          (asTargets? children).map (node .tuplePattern role start stop text ·)
      | .list => (asTargets? children).map (node .listPattern role start stop text ·)
      | _ => none

def asTargets? : List SyntaxTree → Option (List SyntaxTree)
  | [] => some []
  | tree :: rest =>
      match tree.kind with
      | .token | .comment | .lineContinuation => (asTargets? rest).map (tree :: ·)
      | _ => do
          let target ← tree.asTarget?
          let targets ← asTargets? rest
          pure (target :: targets)

end

end CodeGraph.Syntax.SyntaxTree
