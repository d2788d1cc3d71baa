import CodeGraph.Count
import CodeGraph.Graph.Store
import CodeGraph.Json.Decode

namespace CodeGraph

/-! The graph as a document. -/

def Node.toJson : Node → Json
  | .chunk id name kind file language parentId startLine endLine =>
      .object <|
        [("type", .string "chunk"), ("id", .string id), ("name", .string name),
          ("kind", .string kind.name), ("file", .string file), ("language", .string language)] ++
        (parentId.toList.map fun parent => ("parent_chunk_id", Json.string parent)) ++
        [("start_line", .natural startLine), ("end_line", .natural endLine)]
  | .symbol id isTargetName =>
      .object
        [("type", .string "symbol_name"), ("id", .string id),
          ("is_target_name", .bool isTargetName)]

def Edge.toJson (edge : Edge) : Json :=
  .object
    [("source", .string edge.source), ("target", .string edge.target),
      ("relationship_type", .string edge.relation.name), ("line_number", .natural edge.line),
      ("confidence", .float edge.confidence), ("is_method_call", .bool edge.isMethodCall),
      ("weight", .natural edge.weight)]

/-- What a saved graph lists, in the order of the places. -/
structure GraphDocument where
  nodes : List Node
  edges : List Edge

def GraphDocument.toJson (document : GraphDocument) : Json :=
  .object
    [("directed", .bool true), ("nodes", .array (document.nodes.map Node.toJson)),
      ("edges", .array (document.edges.map Edge.toJson))]

def Store.document (store : Store) : GraphDocument :=
  { nodes := store.nodes, edges := store.edges }

def Store.toJson (store : Store) : Json :=
  store.document.toJson

/-! Reading -/

def Relation.ofJson? (document : Json) : Option Relation :=
  document.asChoice?.bind ofName?

/-- The kind of a chunk may also be written as an object of its name and an empty object. -/
def ChunkKind.ofJson? : Json → Option ChunkKind
  | .object [(key, .object [])] => ofName? key
  | document => document.asChoice?.bind ofName?

/-- The tag of a node, wherever it stands, and the node without it. -/
def Json.untag? : Json → Option (String × Json)
  | .object entries =>
      match entries.filter fun entry => entry.1 == "type" with
      | [(_, .string tag)] => some (tag, .object (entries.filter fun entry => entry.1 != "type"))
      | _ => none
  | .array (.string tag :: rest) => some (tag, .array rest)
  | _ => none

def Node.chunkFields : List (List String) :=
  [["id"], ["name"], ["kind"], ["file"], ["language"], ["parent_chunk_id"], ["start_line"],
    ["end_line"]]

def Node.chunkOfSlots? : List Json.Slot → Option Node
  | [id, name, kind, file, language, parentId, startLine, endLine] => do
      let id ← id.required? Json.asString?
      let name ← name.required? Json.asString?
      let kind ← kind.required? ChunkKind.ofJson?
      let file ← file.required? Json.asString?
      let language ← language.required? Json.asString?
      let parentId ← parentId.defaulted? none (Json.asOptional? Json.asString?)
      let startLine ← startLine.required? (Json.asNatural? wordSize)
      let endLine ← endLine.required? (Json.asNatural? wordSize)
      pure (.chunk id name kind file language parentId startLine endLine)
  | _ => none

def Node.symbolOfSlots? : List Json.Slot → Option Node
  | [id, isTargetName] => do
      let id ← id.required? Json.asString?
      let isTargetName ← isTargetName.required? Json.asBool?
      pure (.symbol id isTargetName)
  | _ => none

/-- How deep a document may be nested. -/
def depthLimit : Nat := 127

/-- A node stands two levels deep in its document, and every part of it has to be in order. -/
def Node.ofJson? (document : Json) : Option Node :=
  if document.depth + 2 > depthLimit ∨ !document.isValid then none
  else
    match document.untag? with
    | some ("chunk", fields) => (fields.slots? chunkFields).bind chunkOfSlots?
    | some ("symbol_name", fields) =>
        (fields.slots? [["id"], ["is_target_name"]]).bind symbolOfSlots?
    | _ => none

/-- Some documents give the relation under `type`. -/
def Edge.fields : List (List String) :=
  [["source"], ["target"], ["relationship_type", "type"], ["line_number"], ["confidence"],
    ["is_method_call"], ["weight"]]

def Edge.ofSlots? : List Json.Slot → Option Edge
  | [source, target, relation, line, confidence, isMethodCall, weight] => do
      let source ← source.required? Json.asString?
      let target ← target.required? Json.asString?
      let relation ← relation.required? Relation.ofJson?
      let line ← line.defaulted? 0 (Json.asNatural? wordSize)
      let confidence ← confidence.defaulted? 1.0 Json.asFloat?
      let isMethodCall ← isMethodCall.defaulted? false Json.asBool?
      let weight ← weight.defaulted? 1 (Json.asNatural? shortSize)
      pure { source, target, relation, line, confidence, isMethodCall, weight }
  | _ => none

def Edge.ofJson? (document : Json) : Option Edge :=
  (document.slots? Edge.fields).bind Edge.ofSlots?

def GraphDocument.ofSlots? : List Json.Slot → Option GraphDocument
  | [directed, nodes, edges] => do
      let _ ← directed.required? Json.asBool?
      let nodes ← nodes.required? (Json.asList? Node.ofJson?)
      let edges ← edges.required? (Json.asList? Edge.ofJson?)
      pure { nodes, edges }
  | _ => none

def GraphDocument.ofJson? (document : Json) : Option GraphDocument :=
  (document.slots? [["directed"], ["nodes"], ["edges"]]).bind ofSlots?

/-- The store with the nodes and edges of a document, added in order. -/
def Store.ofDocument (document : GraphDocument) : Store :=
  document.edges.foldl Store.addEdge (document.nodes.foldl Store.addNode {})

end CodeGraph
