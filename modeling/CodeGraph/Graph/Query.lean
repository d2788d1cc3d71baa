import CodeGraph.Count
import CodeGraph.Graph.Levels
import CodeGraph.Graph.Search
import CodeGraph.Graph.Store
import CodeGraph.NameMap

namespace CodeGraph

/-! What is near a node, and how to get from one node to another. -/

/-- The place of a double in the total order that has `-0` below `0`. -/
def orderKey (x : Float) : Int :=
  let bits := x.toBits.toNat
  let half := wordSize / 2
  if bits < half then bits else -(Int.ofNat (bits - half)) - 1

/-- The relations to follow, each in its own direction. -/
structure Following where
  forward : List Relation
  backward : List Relation
deriving Repr, Inhabited

/-- A name of a relation is followed forward and the name of an inverse backward.  Other names
mean nothing. -/
def Following.ofNames (names : List String) : Following :=
  { forward := names.filterMap Relation.ofName?
    backward := names.filterMap fun name =>
      if (Relation.ofName? name).isSome then none else Relation.ofInverseName? name }

/-- Weights of relations by their names. -/
abbrev Weights := NameMap Float

def Weights.of (weights : Weights) (relation : Relation) : Float :=
  (weights.get? relation.name).getD Relation.unlistedWeight

namespace Store

/-- The nodes one step from a node, in the order of the edges, with the relations that lead to
them. -/
def stepsFrom (store : Store) (following : Following) (id : String) : List (String × Relation) :=
  store.edges.flatMap fun edge =>
    (if edge.source == id && following.forward.contains edge.relation then
      [(edge.target, edge.relation)] else []) ++
    (if edge.target == id && following.backward.contains edge.relation then
      [(edge.source, edge.relation)] else [])

/-- Heavier steps come first, then smaller ids. -/
def precedes (weights : Weights) (a b : String × Relation) : Bool :=
  let keyA := orderKey (weights.of a.2)
  let keyB := orderKey (weights.of b.2)
  decide (keyB < keyA) || (keyA == keyB && !decide (b.1 < a.1))

def frontierSteps (store : Store) (following : Following) (weights? : Option Weights)
    (frontier : List String) : List String :=
  let steps := frontier.flatMap (store.stepsFrom following)
  match weights? with
  | none => steps.map Prod.fst
  | some weights => (steps.mergeSort (precedes weights)).map Prod.fst

/-- All nodes within some steps of a node, the nearer ones first.  Weights order the nodes of the
same distance. -/
def neighbors (store : Store) (id : String) (relations : List String) (depth : Nat)
    (weights? : Option Weights) : List String :=
  if store.has id then
    (levels (store.frontierSteps (.ofNames relations) weights?) depth id).flatten
  else []

/-- The targets of calls of a node. -/
def calledBy (store : Store) (id : String) : List String :=
  ((store.edgesFrom id).filter fun edge => edge.relation == .calls).map Edge.target

def calling (store : Store) (id : String) : List String :=
  ((store.edgesTo id).filter fun edge => edge.relation == .calls).map Edge.source

/-- Direct and indirect callers by their distance. -/
def allCallers (store : Store) (id : String) (depth : Nat) : List (List String) :=
  if store.has id then scannedLevels store.calling depth [id] [id] else []

/-- Direct and indirect callees by their distance. -/
def allCallees (store : Store) (id : String) (depth : Nat) : List (List String) :=
  if store.has id then scannedLevels store.calledBy depth [id] [id] else []

/-- The targets of edges of a node, of all edges or of those with the named relations. -/
def successors (store : Store) (types? : Option (List String)) (id : String) : List String :=
  let isAllowed := fun (edge : Edge) =>
    match types? with
    | none => true
    | some types => (types.filterMap Relation.ofName?).contains edge.relation
  ((store.edgesFrom id).filter isAllowed).map Edge.target

/-- A shortest path along the edges, if there is one of at most that many.  Each node that the
search meets is the target of an edge. -/
def findPath? (store : Store) (source target : String) (maxHops : Nat)
    (types? : Option (List String)) : Option (List String) :=
  if store.has source && store.has target then
    shortestPath? (store.successors types?) store.edges.length maxHops source target
  else none

end Store

end CodeGraph
