import CodeGraph.Count
import CodeGraph.Graph.Store
import CodeGraph.Scalar

namespace CodeGraph

/-! The graph as a network of chunks.  Links have no direction, and chunks that refer to the same
unknown name are linked through it. -/

/-- The neighbours of each node, given by its number, with the weight of the link to them. -/
abbrev Network := Array (List (Nat × Nat))

/-- A link between two chunks. -/
structure Link where
  one : String
  other : String
  weight : Nat
deriving DecidableEq, Repr, Inhabited

/-- Adds to the weight of a neighbour. -/
def addWeight {κ : Type} [BEq κ] (neighbour : κ) (weight : Nat) :
    List (κ × Nat) → List (κ × Nat)
  | [] => [(neighbour, weight)]
  | (node, known) :: rest =>
      if node == neighbour then (node, known + weight) :: rest
      else (node, known) :: addWeight neighbour weight rest

namespace Link

/-- What a link adds to the neighbours of a node. -/
def addTo (name : String) (neighbours : List (String × Nat)) (link : Link) :
    List (String × Nat) :=
  if link.one = name then addWeight link.other link.weight neighbours
  else if link.other = name then addWeight link.one link.weight neighbours
  else neighbours

/-- The edges between different chunks. -/
def ofEdges (names : List String) (edges : List Edge) : List Link :=
  (edges.filter fun edge =>
    edge.source != edge.target && names.contains edge.source && names.contains edge.target).map
    fun edge => { one := edge.source, other := edge.target, weight := edge.weight }

/-- One link for each two items of the list. -/
def ofPairs : List String → List Link
  | [] => []
  | name :: rest =>
      (rest.map fun other => { one := name, other, weight := 1 }) ++ ofPairs rest

/-- The chunks that refer to a name, sorted. -/
def referrers (store : Store) (names : List String) (phantom : String) : List String :=
  ((store.callers phantom).filter names.contains).mergeSort

end Link

namespace Store

/-- The chunks in the order of their numbers. -/
def networkNames (store : Store) : List String :=
  store.chunkIds.mergeSort

def networkLinks (store : Store) : List Link :=
  let names := store.networkNames
  Link.ofEdges names store.edges ++
    store.phantomIds.mergeSort.flatMap fun phantom =>
      Link.ofPairs (Link.referrers store names phantom)

def neighboursOf (links : List Link) (name : String) : List (String × Nat) :=
  links.foldl (Link.addTo name) []

def network (store : Store) : Network :=
  let names := store.networkNames
  let links := store.networkLinks
  (names.map fun name =>
    (neighboursOf links name).map fun entry => (names.idxOf entry.1, entry.2)).toArray

end Store

namespace Network

def neighbours (network : Network) (node : Nat) : List (Nat × Nat) :=
  network.getD node []

/-- The weight of all links of a node; a link of the node to itself counts once. -/
def degree (network : Network) (node : Nat) : Nat :=
  sumOf ((network.neighbours node).map Prod.snd)

/-- Twice the weight of all links. -/
def total (network : Network) : Nat :=
  sumOf ((List.range network.size).map network.degree)

end Network

end CodeGraph
