import CodeGraph.Chunk.Basic

namespace CodeGraph

/-! Which chunk defines a name. -/

/-- A chunk that defines a name in a file. -/
structure Definition where
  name : String
  file : String
  id : String
deriving DecidableEq, Repr, Inhabited

/-- The name that a chunk defines: methods with a class have its name in front, and what stands at
the level of the file defines none. -/
def Chunk.qualifiedName? (chunk : Chunk) : Option String :=
  match chunk.kind, chunk.parentName with
  | .fileLevel, _ => none
  | .method, some parent => some (parent ++ "." ++ chunk.name)
  | _, _ => some chunk.name

/-- The definitions in the order they were added. -/
abbrev SymbolIndex := List Definition

namespace SymbolIndex

def add (index : SymbolIndex) (chunk : Chunk) : SymbolIndex :=
  match chunk.qualifiedName? with
  | some name => index ++ [{ name, file := chunk.file, id := chunk.id }]
  | none => index

def ofChunks (chunks : List Chunk) : SymbolIndex :=
  chunks.foldl add []

/-- The number of names. -/
def size (index : SymbolIndex) : Nat :=
  (index.map Definition.name).eraseDups.length

/-- The last definition of a name in a file. -/
def inFile? (index : SymbolIndex) (file name : String) : Option String :=
  (index.reverse.find? fun entry => entry.file == file && entry.name == name).map Definition.id

/-- The different chunks that define a name. -/
def candidates (index : SymbolIndex) (name : String) : List String :=
  ((index.filter fun entry => entry.name == name).map Definition.id).eraseDups

/-- A name with one definition stands for it everywhere; a name with several stands for the one in
the same file. -/
def resolve? (index : SymbolIndex) (target file : String) : Option String :=
  match index.candidates target with
  | [] => none
  | [only] => some only
  | _ => index.inFile? file target

end SymbolIndex

end CodeGraph
