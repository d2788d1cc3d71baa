namespace CodeGraph

/-! Numbered nodes with single links between different nodes. -/

structure Digraph where
  size : Nat
  links : List (Nat × Nat)
deriving DecidableEq, Repr, Inhabited

namespace Digraph

/-- Links of a node to itself are left out, and so are repeated links. -/
def ofLinks (size : Nat) (links : List (Nat × Nat)) : Digraph :=
  { size, links := (links.filter fun link => link.1 != link.2).eraseDups }

def successors (graph : Digraph) (node : Nat) : List Nat :=
  (graph.links.filter fun link => link.1 == node).map Prod.snd

def predecessors (graph : Digraph) (node : Nat) : List Nat :=
  (graph.links.filter fun link => link.2 == node).map Prod.fst

def nodes (graph : Digraph) : List Nat :=
  List.range graph.size

end Digraph

end CodeGraph
