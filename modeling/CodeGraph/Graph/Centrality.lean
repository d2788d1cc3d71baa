import CodeGraph.Count
import CodeGraph.Error
import CodeGraph.Graph.Adjacency
import CodeGraph.Graph.Search
import CodeGraph.NameMap
import CodeGraph.Scalar

namespace CodeGraph

/-! How central the nodes of a graph are, in the arithmetic of any kind of numbers. -/

inductive CentralityMethod where
  | degree
  | betweenness
  | closeness
  | pageRank
deriving DecidableEq, Repr, Inhabited

namespace CentralityMethod

def name : CentralityMethod → String
  | degree => "degree"
  | betweenness => "betweenness"
  | closeness => "closeness"
  | pageRank => "pagerank"

/-- The method of this name, written in any case. -/
def ofName (text : String) : Except Error CentralityMethod :=
  match String.ofList (text.toList.map Char.toLower) with
  | "degree" => .ok degree
  | "betweenness" => .ok betweenness
  | "closeness" => .ok closeness
  | "pagerank" => .ok pageRank
  | other => .error (.unsupported ("unknown centrality method '" ++ other ++ "'"))

end CentralityMethod

namespace Adjacency

variable {α : Type} [Add α] [Sub α] [Mul α] [Div α] [NatCast α] [LT α] [DecidableLT α]

def scoreSum (values : List α) : α :=
  values.foldl (· + ·) ((0 : Nat) : α)

/-- The number of links of a node, as a share of those it could have one way. -/
def degreeScore (graph : Adjacency) (node : Nat) : α :=
  if graph.size ≤ 1 then ((1 : Nat) : α)
  else
    (((graph.successors node).length + (graph.predecessors node).length : Nat) : α) *
      (((1 : Nat) : α) / ((graph.size - 1 : Nat) : α))

def degrees (graph : Adjacency) : List α :=
  graph.nodes.map graph.degreeScore

/-! Closeness -/

/-- How many nodes were met and how far they are, all in all. -/
structure Nearness where
  total : Nat := 0
  reached : Nat := 0
deriving DecidableEq, Repr, Inhabited

def Nearness.note (nearness : Nearness) : SearchEvent → Nearness
  | .meets _ distance =>
      { total := nearness.total + distance, reached := nearness.reached + 1 }
  | _ => nearness

/-- How near the nodes are that lead to a node, scaled by their share among all nodes. -/
def closenessScore (graph : Adjacency) (node : Nat) : α :=
  let nearness := notesOfSearch Nearness.note graph.predecessors graph.size node {}
  if nearness.total = 0 ∨ graph.size ≤ 1 then ((0 : Nat) : α)
  else
    ((nearness.reached : α) / (nearness.total : α)) *
      ((nearness.reached : α) / ((graph.size - 1 : Nat) : α))

def closeness (graph : Adjacency) : List α :=
  graph.nodes.map graph.closenessScore

/-! Betweenness -/

def addAt (values : Array α) (node : Nat) (amount : α) : Array α :=
  values.setIfInBounds node (values.getD node ((0 : Nat) : α) + amount)

/-- The nodes that a search visited, the last one first, those in front of each node on the shortest
paths to it, and the number of these paths. -/
structure PathTally (α : Type) where
  stack : List Nat
  fronts : Array (List Nat)
  counts : Array α
deriving Repr, Inhabited

def PathTally.note (tally : PathTally α) : SearchEvent → PathTally α
  | .visits node => { tally with stack := node :: tally.stack }
  | .meets _ _ => tally
  | .steps node target =>
      { tally with
        fronts := tally.fronts.modify target (· ++ [node])
        counts := addAt tally.counts target (tally.counts.getD node ((0 : Nat) : α)) }

def pathTally (graph : Adjacency) (start : Nat) : PathTally α :=
  notesOfSearch PathTally.note graph.successors graph.size start
    { stack := []
      fronts := Array.replicate graph.size []
      counts := (Array.replicate graph.size ((0 : Nat) : α)).setIfInBounds start ((1 : Nat) : α) }

/-- Hands what depends on a node on to the nodes in front of it, in proportion to their paths. -/
def passBack (tally : PathTally α) (shares : Array α) (node : Nat) : Array α :=
  (tally.fronts.getD node []).foldl
    (fun shares front =>
      addAt shares front
        (tally.counts.getD front ((0 : Nat) : α) / tally.counts.getD node ((0 : Nat) : α) *
          (((1 : Nat) : α) + shares.getD node ((0 : Nat) : α))))
    shares

/-- For each node the sum, over all targets, of the share of the shortest paths from one start that
pass through it, and the scores that such sums add up to. -/
structure Dependencies (α : Type) where
  shares : Array α
  scores : Array α
deriving Repr, Inhabited

/-- Takes a node from the stack. -/
def settle (start : Nat) (tally : PathTally α) (state : Dependencies α) (node : Nat) :
    Dependencies α :=
  let shares := passBack tally state.shares node
  { shares
    scores :=
      if node != start then addAt state.scores node (shares.getD node ((0 : Nat) : α))
      else state.scores }

/-- What a search from one start adds to the scores.  The farthest nodes are taken first. -/
def addDependencies (graph : Adjacency) (scores : Array α) (start : Nat) : Dependencies α :=
  let tally := graph.pathTally start
  tally.stack.foldl (settle start tally)
    { shares := Array.replicate graph.size ((0 : Nat) : α), scores }

/-- How many of the shortest paths between other nodes pass through a node, as a share of all pairs
of other nodes. -/
def betweenness (graph : Adjacency) : List α :=
  let scores :=
    graph.nodes.foldl (fun scores start => (graph.addDependencies scores start).scores)
      (Array.replicate graph.size ((0 : Nat) : α))
  if graph.size > 2 then
    let scale := ((1 : Nat) : α) / (((graph.size - 1) * (graph.size - 2) : Nat) : α)
    scores.toList.map (· * scale)
  else scores.toList

/-! Rank -/

/-- The part of a node's rank that it gives to its successors. -/
def damping : α := ((85 : Nat) : α) / ((100 : Nat) : α)

def roundLimitOfRank : Nat := 100

/-- The ranks are settled when they change by less than this for each node. -/
def rankTolerance : α := ((1 : Nat) : α) / ((10000000000 : Nat) : α)

def rankOf (ranks : List α) (node : Nat) : α :=
  ranks.getD node ((0 : Nat) : α)

/-- One round: each node gives its rank to its successors in equal parts, and a node without
successors to all nodes. -/
def nextRanks (graph : Adjacency) (ranks : List α) : List α :=
  let uniform : α := ((1 : Nat) : α) / (graph.size : α)
  let dangling := scoreSum
    ((graph.nodes.filter fun node => (graph.successors node).isEmpty).map (rankOf ranks))
  graph.nodes.map fun node =>
    let incoming := scoreSum
      ((graph.predecessors node).map fun other =>
        rankOf ranks other / ((graph.successors other).length : α))
    (((1 : Nat) : α) - damping) * uniform + damping * incoming + damping * dangling * uniform

def distance (a b : α) : α :=
  let difference := a - b
  if difference < ((0 : Nat) : α) then ((0 : Nat) : α) - difference else difference

def ranksUpTo (graph : Adjacency) : Nat → List α → List α
  | 0, ranks => ranks
  | rounds + 1, ranks =>
      let next := graph.nextRanks ranks
      let change := scoreSum (List.zipWith distance ranks next)
      if change < rankTolerance * (graph.size : α) then next else ranksUpTo graph rounds next

def pageRank (graph : Adjacency) : List α :=
  ranksUpTo graph roundLimitOfRank
    (List.replicate graph.size (((1 : Nat) : α) / (graph.size : α)))

def scores (graph : Adjacency) : CentralityMethod → List α
  | .degree => graph.degrees
  | .betweenness => graph.betweenness
  | .closeness => graph.closeness
  | .pageRank => graph.pageRank

end Adjacency

/-- The score of every node. -/
def Store.centrality (store : Store) (method : CentralityMethod) : NameMap Float :=
  NameMap.ofList ((store.nodes.map Node.id).zip ((Adjacency.ofStore store).scores method))

end CodeGraph
