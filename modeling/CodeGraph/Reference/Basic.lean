import CodeGraph.Relation

namespace CodeGraph

/-- A mention of something in a chunk.  The target is a name as far as it could be resolved. -/
structure Reference where
  source : String
  target : String
  relation : Relation
  line : Nat
  confidence : Float := 1.0
  isMethodCall : Bool := false
deriving Repr, Inhabited

end CodeGraph
