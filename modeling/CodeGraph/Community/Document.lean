import CodeGraph.Community.Basic
import CodeGraph.Count
import CodeGraph.Json.Decode

namespace CodeGraph

/-! Community maps as documents. -/

def Communities.toJson (communities : Communities) : Json :=
  .object (communities.map fun entry => (entry.1, .natural entry.2))

def Communities.ofJson? (document : Json) : Option Communities :=
  (Json.asEntries? (Json.asNatural? wordSize) document).map NameMap.ofList

def CommunityStats.toJson (stats : CommunityStats) : Json :=
  .object
    [("count", .natural stats.count), ("avg_size", .float stats.averageSize),
      ("largest", .natural stats.largest), ("smallest", .natural stats.smallest)]

end CodeGraph
