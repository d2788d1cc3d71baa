import CodeGraph.Reference.Basic

namespace CodeGraph

/-- A relation between two nodes, given by their ids.  The weight counts how often it occurs, and
the line is that of the first occurrence. -/
structure Edge where
  source : String
  target : String
  relation : Relation
  line : Nat := 0
  confidence : Float := 1.0
  isMethodCall : Bool := false
  weight : Nat := 1
deriving Repr, Inhabited

namespace Edge

/-- Edges of the same key are one edge. -/
def key (edge : Edge) : String × String × Relation :=
  (edge.source, edge.target, edge.relation)

/-- The larger of two confidences; one that is not a number gives way to the other. -/
def largerConfidence (first other : Float) : Float :=
  if first < other || first.isNaN then other else first

/-- The edge after another occurrence of it. -/
def absorb (edge other : Edge) : Edge :=
  { edge with
    confidence := largerConfidence edge.confidence other.confidence
    isMethodCall := edge.isMethodCall || other.isMethodCall
    weight := edge.weight + max other.weight 1 }

/-- The reference as an edge to the node that was found for its target. -/
def ofReference (reference : Reference) (target : String) : Edge :=
  { source := reference.source
    target
    relation := reference.relation
    line := reference.line
    confidence := reference.confidence
    isMethodCall := reference.isMethodCall }

@[simp] theorem key_absorb (edge other : Edge) : (edge.absorb other).key = edge.key := rfl

end Edge

end CodeGraph
