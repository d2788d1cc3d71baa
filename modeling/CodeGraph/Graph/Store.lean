import CodeGraph.Graph.Edge
import CodeGraph.Graph.NodeTable

namespace CodeGraph

/-! The graph itself.  Edges are counted by their places in the list, as nodes are. -/

structure Store extends NodeTable where
  edges : List Edge := []
  inStep : toNodeTable.InStep := by exact NodeTable.InStep.empty
deriving Repr

instance : Inhabited Store := ⟨{}⟩

namespace Store

def indexOf? (store : Store) (id : String) : Option Nat :=
  store.places.get? id

def has (store : Store) (id : String) : Bool :=
  (store.indexOf? id).isSome

def node? (store : Store) (id : String) : Option Node :=
  (store.indexOf? id).bind fun place => store.nodes[place]?

def chunkIds (store : Store) : List String :=
  (store.nodes.filter Node.isChunk).map Node.id

def phantomIds (store : Store) : List String :=
  (store.nodes.filter fun node => !node.isChunk).map Node.id

/-! Nodes -/

/-- A node takes the place of the one with its id, with all edges of it. -/
def addNode (store : Store) (node : Node) : Store :=
  { store with toNodeTable := store.put node, inStep := store.inStep.put node }

def addChunk (store : Store) (chunk : Chunk) : Store :=
  store.addNode (.ofChunk chunk)

def ensure (store : Store) (id : String) : Store :=
  if store.has id then store else store.addNode (.phantom id)

/-! Edges -/

def putEdge (edge : Edge) : List Edge → List Edge
  | [] => [edge]
  | other :: rest =>
      if other.key = edge.key then other.absorb edge :: rest else other :: putEdge edge rest

/-- Unknown ends become phantoms, and an edge that is there already counts once more. -/
def addEdge (store : Store) (edge : Edge) : Store :=
  let store := (store.ensure edge.source).ensure edge.target
  { store with edges := putEdge edge store.edges }

def edgeIndex? (store : Store) (edge : Edge) : Option Nat :=
  store.edges.findIdx? fun other => other.key == edge.key

/-- Takes out the edge at a place; the last edge moves there. -/
def removeAt (edges : List Edge) (index : Nat) : List Edge :=
  match edges.getLast? with
  | some last => (edges.set index last).dropLast
  | none => []

/-- The places of the edges that start at a node, from the last to the first. -/
def outgoingIndices (edges : List Edge) (id : String) : List Nat :=
  ((List.range edges.length).filter fun index =>
    (edges[index]?.map Edge.source) == some id).reverse

/-- The store without the edges that start at a node, and how many those were. -/
def dropEdgesFrom (store : Store) (id : String) : Store × Nat :=
  let indices := outgoingIndices store.edges id
  ({ store with edges := indices.foldl removeAt store.edges }, indices.length)

def removeEdgesFrom (store : Store) (id : String) : Store :=
  (store.dropEdgesFrom id).1

/-! Edges of a node -/

def edgesFrom (store : Store) (id : String) : List Edge :=
  store.edges.filter fun edge => edge.source == id

def edgesTo (store : Store) (id : String) : List Edge :=
  store.edges.filter fun edge => edge.target == id

/-- The nodes with an edge to this one, in the order of those edges. -/
def callers (store : Store) (id : String) : List String :=
  ((store.edgesTo id).map Edge.source).eraseDups

def callees (store : Store) (id : String) : List String :=
  ((store.edgesFrom id).map Edge.target).eraseDups

/-- Chunks that nothing points at, sorted. -/
def entryPoints (store : Store) : List String :=
  (store.chunkIds.filter fun id => (store.edgesTo id).isEmpty).mergeSort

/-- Chunks that point at nothing, sorted. -/
def leaves (store : Store) : List String :=
  (store.chunkIds.filter fun id => (store.edgesFrom id).isEmpty).mergeSort

end Store

end CodeGraph
