import CodeGraph.Text.Split

namespace CodeGraph

/-! Chunks: the pieces of code that the graph is about. -/

inductive ChunkKind where
  | function
  | method
  | classDef
  | fileLevel
deriving DecidableEq, Repr, Inhabited

namespace ChunkKind

def name : ChunkKind → String
  | function => "function"
  | method => "method"
  | classDef => "class"
  | fileLevel => "module"

def ofName? : String → Option ChunkKind
  | "function" => some function
  | "method" => some method
  | "class" => some classDef
  | "module" => some fileLevel
  | _ => none

theorem ofName?_name (kind : ChunkKind) : ofName? kind.name = some kind := by
  cases kind <;> rfl

end ChunkKind

/-- A piece of a source file.  `file` is the path below the project, with forward slashes, and
`path` the path that the file is read from. -/
structure Chunk where
  id : String
  name : String
  kind : ChunkKind
  file : String
  path : String
  language : String
  startLine : Nat
  endLine : Nat
  parentName : Option String := none
  parentId : Option String := none
  content : String
deriving Repr, Inhabited

/-- The id of a chunk: the path, the lines, the kind, and behind them the name with the name of
the class around it. -/
def chunkId (file : String) (startLine endLine : Nat) (kind : ChunkKind)
    (parent name : Option String) : String :=
  Text.forwardSlashes file ++ ":" ++ toString startLine ++ "-" ++ toString endLine ++ ":" ++
    kind.name ++
    match parent, name with
    | some parent, some name => ":" ++ parent ++ "." ++ name
    | none, some name => ":" ++ name
    | _, none => ""

end CodeGraph
