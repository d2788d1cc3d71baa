namespace CodeGraph

/-! Languages that can be indexed. -/

inductive Language where
  | python
deriving DecidableEq, Repr, Inhabited

namespace Language

def name : Language → String
  | python => "python"

def extensions : Language → List String
  | python => ["py", "pyi"]

private def asciiLower (text : String) : String :=
  String.ofList (text.toList.map Char.toLower)

/-- The language of this name, written in any case. -/
def ofName? (text : String) : Option Language :=
  match asciiLower text with
  | "python" | "py" => some python
  | _ => none

/-- The language of files with this extension. -/
def ofExtension? (extension : String) : Option Language :=
  if python.extensions.contains extension then some python else none

end Language

end CodeGraph
