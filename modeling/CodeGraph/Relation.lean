namespace CodeGraph

/-! The ways in which one piece of code can relate to another. -/

inductive Relation where
  | calls
  | inherits
  | implements
  | overrides
  | usesType
  | instantiates
  | imports
  | decorates
  | raises
  | catches
deriving DecidableEq, Repr, Inhabited

namespace Relation

def all : List Relation :=
  [calls, inherits, implements, overrides, usesType, instantiates, imports, decorates, raises,
    catches]

theorem mem_all (relation : Relation) : relation ∈ all := by
  cases relation <;> decide

def name : Relation → String
  | calls => "calls"
  | inherits => "inherits"
  | implements => "implements"
  | overrides => "overrides"
  | usesType => "uses_type"
  | instantiates => "instantiates"
  | imports => "imports"
  | decorates => "decorates"
  | raises => "raises"
  | catches => "catches"

/-- The name of the relation read backwards. -/
def inverseName : Relation → String
  | calls => "called_by"
  | inherits => "inherited_by"
  | implements => "implemented_by"
  | overrides => "overridden_by"
  | usesType => "type_used_by"
  | instantiates => "instantiated_by"
  | imports => "imported_by"
  | decorates => "decorated_by"
  | raises => "raised_by"
  | catches => "caught_by"

def ofName? (text : String) : Option Relation :=
  all.find? fun relation => relation.name == text

def ofInverseName? (text : String) : Option Relation :=
  all.find? fun relation => relation.inverseName == text

theorem ofName?_name (relation : Relation) : ofName? relation.name = some relation := by
  cases relation <;> decide

theorem ofInverseName?_inverseName (relation : Relation) :
    ofInverseName? relation.inverseName = some relation := by
  cases relation <;> decide

/-- The weight of a relation that a weight table does not list. -/
def unlistedWeight : Float := 0.5

/-- The weight of the relation in a traversal.  Imports count little, so that they do not flood
the results. -/
def defaultWeight : Relation → Float
  | calls => 1.0
  | inherits | overrides => 0.95
  | implements => 0.9
  | instantiates => 0.85
  | usesType => 0.8
  | imports => 0.3
  | decorates | raises | catches => unlistedWeight

def defaultWeights : List (String × Float) :=
  all.map fun relation => (relation.name, relation.defaultWeight)

end Relation

end CodeGraph
