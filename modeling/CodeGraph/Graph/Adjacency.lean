import CodeGraph.Graph.Store

namespace CodeGraph

/-! Numbered nodes with the single links between different nodes, listed at both ends. -/

/-- For each node those that it has links to, and those that have links to it. -/
structure Adjacency where
  out : Array (List Nat)
  into : Array (List Nat)
deriving DecidableEq, Repr, Inhabited

namespace Adjacency

def size (graph : Adjacency) : Nat :=
  graph.out.size

def nodes (graph : Adjacency) : List Nat :=
  List.range graph.size

def successors (graph : Adjacency) (node : Nat) : List Nat :=
  graph.out.getD node []

def predecessors (graph : Adjacency) (node : Nat) : List Nat :=
  graph.into.getD node []

def unlinked (size : Nat) : Adjacency :=
  { out := Array.replicate size [], into := Array.replicate size [] }

/-- Adds a link that is not known yet.  Links of a node to itself are left out. -/
def addLink (state : Adjacency × List (Nat × Nat)) (link : Nat × Nat) :
    Adjacency × List (Nat × Nat) :=
  let (graph, known) := state
  if link.1 != link.2 && !known.contains link then
    ({ out := graph.out.modify link.1 (· ++ [link.2])
       into := graph.into.modify link.2 (· ++ [link.1]) },
      known ++ [link])
  else state

/-- The graph of a store without directions that are taken more than once.  A node is given by its
place in the store. -/
def ofStore (store : Store) : Adjacency :=
  let ids := store.nodes.map Node.id
  ((store.edges.map fun edge => (ids.idxOf edge.source, ids.idxOf edge.target)).foldl addLink
    (unlinked ids.length, [])).1

end Adjacency

end CodeGraph
