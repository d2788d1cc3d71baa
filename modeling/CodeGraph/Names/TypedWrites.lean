import CodeGraph.Names.Imports
import CodeGraph.TypeHint

namespace CodeGraph.Names

open Syntax

/-! Types of variables by what is assigned to them.  Any call counts as the construction of a
value of the class it names. -/

/-- Class names of variables, and of attributes such as `self.x`. -/
abbrev Types := NameMap String

/-- The variable or the attribute of `self` or `cls` that a target stands for. -/
def targetKey? (target : SyntaxTree) : Option String :=
  match target.kind with
  | .identifier => some target.text
  | .memberAccess => do
      let object ← target.part? .object
      let member ← target.part? .member
      if object.kind = .identifier ∧ (object.text = "self" ∨ object.text = "cls") then
        some (object.text ++ "." ++ member.text)
      else none
  | _ => none

/-- The class of the value of a call. -/
def constructedType? (imports : Imports) (value : SyntaxTree) : Option String :=
  if value.kind = .call then do
    let function ← value.part? .function
    match function.kind with
    | .identifier => some (unalias imports function.text)
    | .memberAccess => (function.part? .member).map fun member => Text.lastSegment member.text
    | _ => none
  else none

mutual

/-- The value at the end of a chain such as `a = b = value`. -/
def chainEnd? : SyntaxTree → Option SyntaxTree
  | .node kind role start stop text children =>
      if kind = .assignment then chainEndOf? children
      else some (.node kind role start stop text children)

def chainEndOf? : List SyntaxTree → Option SyntaxTree
  | [] => none
  | tree :: rest => if tree.role = some .right then chainEnd? tree else chainEndOf? rest

end

def hintedType? (statement : SyntaxTree) : Option String :=
  (statement.part? .type).bind fun hint => TypeHint.className? hint.text

/-- What one node of the tree writes.  A type hint is preferred to the value. -/
def assignmentWrite? (imports : Imports) (statement : SyntaxTree) : Option (String × String) := do
  let left ← statement.part? .left
  let key ← targetKey? left
  let type ← (hintedType? statement).orElse fun _ =>
    (chainEndOf? statement.children).bind (constructedType? imports)
  pure (key, type)

def namedExpressionWrite? (imports : Imports) (expression : SyntaxTree) :
    Option (String × String) := do
  let name ← expression.part? .name
  let value ← expression.part? .value
  let type ← constructedType? imports value
  pure (name.text, type)

def withItemWrite? (imports : Imports) (item : SyntaxTree) : Option (String × String) := do
  let value ← item.part? .value
  if value.kind = .asPattern then
    let expression ← value.firstNamed?
    let binding ← value.part? .binding
    let target ← if binding.kind = .asPatternTarget then binding.firstNamed? else some binding
    let key ← targetKey? target
    let type ← constructedType? imports expression
    pure (key, type)
  else none

def write? (imports : Imports) (tree : SyntaxTree) : Option (String × String) :=
  match tree.kind with
  | .assignment => assignmentWrite? imports tree
  | .namedExpression => namedExpressionWrite? imports tree
  | .withItem => withItemWrite? imports tree
  | _ => none

/-- Nodes whose writes are not those of the scope around them. -/
def hidesWrites : Kind → Bool
  | .functionDefinition | .classDefinition | .decoratedDefinition | .lambda
  | .augmentedAssignment => true
  | _ => false

mutual

/-- The typed writes of a node and below it, in source order. -/
def typedWrites (imports : Imports) : SyntaxTree → List (String × String)
  | .node kind role start stop text children =>
      if hidesWrites kind then []
      else
        (write? imports (.node kind role start stop text children)).toList ++
          typedWritesOfAll imports children

def typedWritesOfAll (imports : Imports) : List SyntaxTree → List (String × String)
  | [] => []
  | tree :: rest => typedWrites imports tree ++ typedWritesOfAll imports rest

end

/-- The types of the variables of a scope, where the last write wins. -/
def assignedTypes (imports : Imports) (scope : SyntaxTree) : Types :=
  NameMap.ofList (typedWritesOfAll imports scope.children)

end CodeGraph.Names
