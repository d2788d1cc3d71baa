import CodeGraph.Chunk.Basic
import CodeGraph.Language
import CodeGraph.Syntax.Parse
import CodeGraph.Text.Path

namespace CodeGraph

open Syntax

/-! Splitting a source file into chunks: its functions and classes, the methods of those classes,
and the file itself if it has statements besides definitions. -/

/-- The definition that a statement introduces, seen through its decorators. -/
def definitionOf? (statement : SyntaxTree) : Option SyntaxTree :=
  match statement.kind with
  | .functionDefinition | .classDefinition => some statement
  | .decoratedDefinition => statement.part? .definition
  | _ => none

/-- Removes up to `width` spaces and tabs from the start of a line. -/
def outdentLine : Nat → List Char → List Char
  | 0, line => line
  | _ + 1, [] => []
  | width + 1, c :: rest => if c = ' ' ∨ c = '\t' then outdentLine width rest else c :: rest

/-- The text of a node without its own indentation on the lines after the first, so that a method
reads like a function. -/
def outdented (tree : SyntaxTree) : String :=
  if tree.start.column = 0 then tree.text
  else
    match Text.splitAt '\n' tree.text.toList with
    | [] => ""
    | first :: rest =>
        String.ofList
          (List.intercalate ['\n'] (first :: rest.map (outdentLine tree.start.column)))

namespace Chunk

/-- The chunk of a definition with its decorators; `parent` is the name and the id of the class
that a method belongs to. -/
def ofDefinition (file path : String) (kind : ChunkKind) (statement : SyntaxTree) (name : String)
    (parent : Option (String × String)) : Chunk :=
  let startLine := statement.start.row + 1
  let endLine := statement.stop.row + 1
  { id := chunkId file startLine endLine kind (parent.map Prod.fst) (some name)
    name
    kind
    file
    path
    language := Language.python.name
    startLine
    endLine
    parentName := parent.map Prod.fst
    parentId := parent.map Prod.snd
    content := outdented statement }

def methodsOf (file path : String) (parent : String × String) (definition : SyntaxTree) :
    List Chunk :=
  match definition.part? .body with
  | none => []
  | some body =>
      body.children.filterMap fun member => do
        let method ← definitionOf? member
        let name ← if method.kind = .functionDefinition then method.part? .name else none
        pure (ofDefinition file path .method member name.text (some parent))

/-- The chunks of one statement of a file. -/
def ofStatement (file path : String) (statement : SyntaxTree) : List Chunk :=
  match definitionOf? statement with
  | none => []
  | some definition =>
      match definition.part? .name with
      | none => []
      | some name =>
          if definition.kind = .functionDefinition then
            [ofDefinition file path .function statement name.text none]
          else
            let owner := ofDefinition file path .classDef statement name.text none
            owner :: methodsOf file path (name.text, owner.id) definition

/-- The statement is code that runs with the file itself. -/
def isFileLevel (statement : SyntaxTree) : Bool :=
  (definitionOf? statement).isNone && statement.kind.isNamed && statement.kind != .comment

/-- The last line of a text that ends here; a line break at the end starts no line. -/
def lastLine (stop : Position) : Nat :=
  max 1 (if stop.column = 0 then stop.row else stop.row + 1)

def ofFileLevel (file path text : String) (root : SyntaxTree) : Chunk :=
  let endLine := lastLine root.stop
  { id := chunkId file 1 endLine .fileLevel none none
    name := (Text.Path.stem? file).getD ""
    kind := .fileLevel
    file
    path
    language := Language.python.name
    startLine := 1
    endLine
    content := text }

def ofTree (file path text : String) (root : SyntaxTree) : List Chunk :=
  (if root.children.any isFileLevel then [ofFileLevel file path text root] else []) ++
    root.children.flatMap (ofStatement file path)

/-- The chunks of a source file, or nothing for a text outside of the grammar. -/
def ofSource? (file path text : String) : Option (List Chunk) :=
  (parse? text).map (ofTree (Text.forwardSlashes file) path text)

end Chunk

end CodeGraph
