import CodeGraph.Names.TypedWrites

namespace CodeGraph.Names

open Syntax

/-! Types in the signature of a function. -/

/-- The name of a parameter, also of one with a star in front. -/
def parameterName? (target : SyntaxTree) : Option String :=
  match target.kind with
  | .identifier => some target.text
  | .listSplatPattern | .dictionarySplatPattern =>
      (target.namedChildren.find? fun child => child.kind == .identifier).map SyntaxTree.text
  | _ => none

def parameterType? (parameter : SyntaxTree) : Option (String × String) :=
  match parameter.kind with
  | .typedParameter => do
      let hint ← parameter.part? .type
      let name ← parameter.firstNamed?.bind parameterName?
      let type ← TypeHint.className? hint.text
      pure (name, type)
  | .typedDefaultParameter => do
      let name ← parameter.part? .name
      let hint ← parameter.part? .type
      let type ← TypeHint.className? hint.text
      pure (name.text, type)
  | _ => none

/-- The types of the parameters whose hints name a class. -/
def parameterTypes (function : SyntaxTree) : Types :=
  match function.part? .parameters with
  | some parameters => NameMap.ofList (parameters.namedChildren.filterMap parameterType?)
  | none => []

def returnType? (function : SyntaxTree) : Option String :=
  (function.part? .returnType).bind fun hint => TypeHint.className? hint.text

end CodeGraph.Names
