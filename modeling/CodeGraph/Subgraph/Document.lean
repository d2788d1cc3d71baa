import CodeGraph.Json.Basic
import CodeGraph.Subgraph.Basic

namespace CodeGraph

/-! The subgraph as a document.  Fields without a value are left out. -/

def optionalField {α : Type} (name : String) (toJson : α → Json) (value? : Option α) :
    List (String × Json) :=
  value?.toList.map fun value => (name, toJson value)

def SubgraphNode.toJson (entry : SubgraphNode) : Json :=
  let details : List (String × Json) :=
    match entry.node with
    | .chunk _ name kind _ _ _ startLine endLine =>
        [("name", .string name), ("kind", .string kind.name)] ++
          optionalField "file" .string entry.file ++
          [("start_line", .natural startLine), ("end_line", .natural endLine)]
    | .symbol .. => []
  .object <|
    [("id", .string entry.node.id)] ++ details ++ [("is_result", .bool entry.isResult)] ++
      optionalField "community" .natural entry.community ++
      optionalField "centrality" .float entry.centrality

def subgraphEdge (edge : Edge) (direction? : Option Direction) : Json :=
  .object <|
    [("source", .string edge.source), ("target", .string edge.target),
      ("relationship_type", .string edge.relation.name), ("line_number", .natural edge.line),
      ("weight", .natural edge.weight)] ++
      optionalField "direction" (fun direction => .string direction.name) direction?

def CommunitySummary.toJson (summary : CommunitySummary) : Json :=
  .object <|
    [("id", .natural summary.id), ("member_count", .natural summary.memberCount)] ++
      optionalField "label" .string summary.label

def Subgraph.toJson (subgraph : Subgraph) : Json :=
  let listed := fun (name : String) (items : List Json) =>
    if items.isEmpty then [] else [(name, Json.array items)]
  .object <|
    [("nodes", .array (subgraph.nodes.map SubgraphNode.toJson)),
      ("edges", .array (subgraph.edges.map fun edge => subgraphEdge edge none))] ++
      listed "boundary_edges"
        (subgraph.boundary.map fun entry => subgraphEdge entry.1 (some entry.2)) ++
      listed "communities" (subgraph.communities.map CommunitySummary.toJson) ++
      [("has_cycles", .bool subgraph.hasCycles)]

end CodeGraph
