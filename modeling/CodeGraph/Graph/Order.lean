import CodeGraph.Graph.Digraph

namespace CodeGraph

/-! Nodes in an order that follows the links.  Where links form cycles, the nodes of a cycle stand
together. -/

/-- The nodes seen so far, and those finished, the last one first. -/
structure Exploration where
  seen : List Nat := []
  finished : List Nat := []
deriving DecidableEq, Repr, Inhabited

namespace Digraph

/-- Depth-first search from a node.  Each step into the graph sees a new node, so that the number
of nodes is fuel enough. -/
def explore (next : Nat → List Nat) : Nat → Exploration → Nat → Exploration
  | 0, state, _ => state
  | fuel + 1, state, node =>
      if state.seen.contains node then state
      else
        let inner := (next node).foldl (explore next fuel) { state with seen := node :: state.seen }
        { inner with finished := node :: inner.finished }

/-- All nodes, those that are finished last in front. -/
def byFinish (graph : Digraph) (next : Nat → List Nat) : List Nat :=
  (graph.nodes.foldl (explore next graph.size) {}).finished

/-- Collects what a node leads to and no group has yet. -/
def collect (graph : Digraph) (next : Nat → List Nat) (state : List Nat × List (List Nat))
    (node : Nat) : List Nat × List (List Nat) :=
  let (seen, groups) := state
  if seen.contains node then state
  else
    let found := explore next graph.size { seen := seen } node
    (found.seen, groups ++ [found.finished])

/-- The nodes in groups, each with what the first node of it in the given order leads to. -/
def groups (graph : Digraph) (next : Nat → List Nat) (order : List Nat) : List (List Nat) :=
  (order.foldl (graph.collect next) ([], [])).2

/-- The nodes, each in front of those it leads to.  They have no such order if a search against the
links finds several of them at once. -/
def sorted? (graph : Digraph) : Option (List Nat) :=
  let order := graph.byFinish graph.successors
  if (graph.groups graph.predecessors order).any fun group => decide (group.length > 1) then none
  else some order

/-- The strongly connected components. -/
def components (graph : Digraph) : List (List Nat) :=
  graph.groups graph.successors (graph.byFinish graph.predecessors)

/-- The graph of the components. -/
def condensed (graph : Digraph) : Digraph :=
  let components := graph.components
  let componentOf := fun node => components.findIdx fun component => component.contains node
  ofLinks components.length
    (graph.links.map fun link => (componentOf link.1, componentOf link.2))

/-- The nodes in order, and whether there are cycles.  If so, the components are put in order, and
the nodes of a component stand side by side and sorted. -/
def ordered (graph : Digraph) : List Nat × Bool :=
  match graph.sorted? with
  | some order => (order, false)
  | none =>
      match graph.condensed.sorted? with
      | some order =>
          let components := graph.components
          (order.flatMap fun index => (components.getD index []).mergeSort, true)
      | none => (graph.nodes, true)

end Digraph

end CodeGraph
