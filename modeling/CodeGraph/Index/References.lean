import CodeGraph.Graph.Store
import CodeGraph.Graph.SymbolIndex
import CodeGraph.Reference.Extract

namespace CodeGraph

/-! From chunks to the graph: every chunk becomes a node and every reference in it an edge. -/

structure ReferenceStats where
  chunks : Nat := 0
  edges : Nat := 0
  resolvedTargets : Nat := 0
  failedChunks : Nat := 0
deriving DecidableEq, Repr, Inhabited

namespace Store

/-- The chunk that a reference from the file leads to.  A method call without a known receiver is
a bare name, which must not lead to a function of that name. -/
def resolve? (index : SymbolIndex) (file : String) (reference : Reference) : Option String :=
  if reference.isMethodCall && !reference.target.toList.contains '.' then none
  else index.resolve? reference.target file

def addReference (index : SymbolIndex) (file : String) (state : Store × ReferenceStats)
    (reference : Reference) : Store × ReferenceStats :=
  let (store, stats) := state
  let found := resolve? index file reference
  (store.addEdge (.ofReference reference (found.getD reference.target)),
    { stats with
      edges := stats.edges + 1
      resolvedTargets := stats.resolvedTargets + (if found.isSome then 1 else 0) })

/-- The references of a chunk take the place of the edges it had. -/
def replaceReferences (index : SymbolIndex) (state : Store × ReferenceStats)
    (entry : Chunk × Option (List Reference)) : Store × ReferenceStats :=
  let (store, stats) := state
  let store := store.removeEdgesFrom entry.1.id
  match entry.2 with
  | none => (store, { stats with failedChunks := stats.failedChunks + 1 })
  | some references => references.foldl (addReference index entry.1.file) (store, stats)

/-- Adds chunks with the references that were found in each. -/
def addExtracted (store : Store) (chunks : List Chunk)
    (extracted : List (Option (List Reference))) : Store × ReferenceStats :=
  let store := chunks.foldl addChunk store
  (chunks.zip extracted).foldl (replaceReferences (.ofChunks chunks))
    (store, { chunks := chunks.length })

/-- Adds chunks and all that they refer to. -/
def addChunks (read? : String → Option String) (store : Store) (chunks : List Chunk) :
    Store × ReferenceStats :=
  store.addExtracted chunks (Reference.ofChunks read? [] chunks)

end Store

end CodeGraph
