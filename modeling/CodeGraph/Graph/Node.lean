import CodeGraph.Chunk.Basic

namespace CodeGraph

/-- A node of the graph: a chunk, or a name that no chunk was found for. -/
inductive Node where
  | chunk (id name : String) (kind : ChunkKind) (file language : String)
      (parentId : Option String) (startLine endLine : Nat)
  | symbol (id : String) (isTargetName : Bool)
deriving DecidableEq, Repr, Inhabited

namespace Node

def id : Node → String
  | chunk id .. => id
  | symbol id _ => id

def isChunk : Node → Bool
  | chunk .. => true
  | symbol .. => false

def file? : Node → Option String
  | chunk _ _ _ file .. => some file
  | symbol .. => none

/-- The node that stands for a name until a chunk takes its place. -/
def phantom (name : String) : Node :=
  symbol name true

def ofChunk (chunk : Chunk) : Node :=
  .chunk chunk.id chunk.name chunk.kind chunk.file chunk.language chunk.parentId chunk.startLine
    chunk.endLine

@[simp] theorem id_phantom (name : String) : (phantom name).id = name := rfl

@[simp] theorem id_ofChunk (chunk : Chunk) : (ofChunk chunk).id = chunk.id := rfl

end Node

end CodeGraph
