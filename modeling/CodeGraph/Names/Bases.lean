import CodeGraph.Names.Imports

namespace CodeGraph.Names

open Syntax

/-! Base classes. -/

mutual

/-- The class that an expression in a class header names: a name, the last part of a dotted one,
or what is subscripted. -/
def baseName? (imports : Imports) : SyntaxTree → Option String
  | .node kind role start stop text children =>
      let name? : Option String :=
        match kind with
        | .identifier => some (unalias imports text)
        | .memberAccess =>
            ((SyntaxTree.node kind role start stop text children).part? .member).map SyntaxTree.text
        | .subscript => baseNameOfValue? imports children
        | _ => none
      name?.bind fun name =>
        let name := Text.lastSegment name
        if name = "" then none else some name

def baseNameOfValue? (imports : Imports) : List SyntaxTree → Option String
  | [] => none
  | tree :: rest =>
      if tree.role = some .value then baseName? imports tree else baseNameOfValue? imports rest

end

/-- The bases of a class in the order of its header, keyword arguments apart. -/
def baseClasses (imports : Imports) (definition : SyntaxTree) : List String :=
  match definition.part? .superclasses with
  | some list => list.namedChildren.filterMap (baseName? imports)
  | none => []

/-- The bases of every class below a node, by name.  Of two classes with one name the later
counts. -/
def classBases (imports : Imports) (root : SyntaxTree) : NameMap (List String) :=
  NameMap.ofList <| (root.preorder.filter fun tree => tree.kind == .classDefinition).filterMap
    fun definition =>
      (definition.part? .name).map fun name => (name.text, baseClasses imports definition)

end CodeGraph.Names
