import CodeGraph.NameMap
import CodeGraph.Syntax.Tree
import CodeGraph.Text.Split

namespace CodeGraph.Names

open Syntax

/-! What the import statements of a file bind. -/

/-- What an imported name stands for: the full path, and the name it had where it was defined. -/
structure Imported where
  qualifiedName : String
  symbol : String
deriving DecidableEq, Repr, Inhabited

def Imported.typeName (imported : Imported) : String :=
  Text.lastSegment imported.symbol

abbrev Imports := NameMap Imported

/-- The name of the class that a local name stands for. -/
def unalias (imports : Imports) (name : String) : String :=
  match imports.get? name with
  | some imported => imported.typeName
  | none => name

/-- The name and the alias of an item such as `a as b`. -/
def aliasOf? (item : SyntaxTree) : Option (String × String) := do
  let name ← item.part? .name
  let binding ← item.part? .binding
  pure (name.text, binding.text)

/-- A dotted import also binds its first part. -/
def plainBindings (item : SyntaxTree) : List (String × Imported) :=
  match item.kind with
  | .dottedName =>
      let path := item.text
      let root := String.ofList (Text.beforeFirst '.' path.toList)
      (if root = path then [] else [(root, ⟨root, root⟩)]) ++ [(path, ⟨path, path⟩)]
  | .aliasedImport =>
      match aliasOf? item with
      | some (path, binding) => [(binding, ⟨path, path⟩)]
      | none => []
  | _ => []

/-- A source of dots only takes the name without another dot. -/
def qualify (source name : String) : String :=
  if source.toList.getLast? = some '.' then source ++ name else source ++ "." ++ name

def fromBindings (source : String) (item : SyntaxTree) : List (String × Imported) :=
  let found : Option (String × String) :=
    match item.kind with
    | .dottedName => some (item.text, item.text)
    | .aliasedImport => aliasOf? item
    | _ => none
  match found with
  | some (name, binding) =>
      if name = "" ∨ binding = "" then [] else [(binding, ⟨qualify source name, name⟩)]
  | none => []

/-- The bindings of one import statement in the order it names them. -/
def statementBindings (statement : SyntaxTree) : List (String × Imported) :=
  match statement.kind with
  | .importStatement => (statement.parts .name).flatMap plainBindings
  | .importFromStatement =>
      match statement.part? .moduleName with
      | some source => (statement.parts .name).flatMap (fromBindings source.text)
      | none => []
  | _ => []

mutual

/-- The bindings of all import statements below a node, those in definitions apart. -/
def bindingsBelow : SyntaxTree → List (String × Imported)
  | .node _ _ _ _ _ children => bindingsOfAll children

def bindingsOfAll : List SyntaxTree → List (String × Imported)
  | [] => []
  | tree :: rest =>
      (match tree.kind with
        | .importStatement | .importFromStatement => statementBindings tree
        | .functionDefinition | .classDefinition | .decoratedDefinition => []
        | _ => bindingsBelow tree) ++ bindingsOfAll rest

end

/-- The names that the module level of a file imports. -/
def importsOf (root : SyntaxTree) : Imports :=
  NameMap.ofList (bindingsBelow root)

end CodeGraph.Names
