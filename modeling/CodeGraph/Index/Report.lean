import CodeGraph.Index.Run

namespace CodeGraph

/-! What an indexing run reports. -/

/-- The times of a run, and how an amount of milliseconds is shown. -/
structure Clock where
  indexedAt : String
  seconds : Phase → Float
  milliseconds : Float
  label : Float → String := fun amount => Decimal.fixedText 1 amount ++ "ms"

def IndexStats.toJson (stats : IndexStats) : Json :=
  .object
    [("files", .natural stats.files), ("chunks", .natural stats.chunks),
      ("nodes", .natural stats.nodes), ("edges", .natural stats.edges),
      ("phantoms", .natural stats.phantoms),
      ("resolved_targets", .natural stats.resolvedTargets),
      ("failed_chunks", .natural stats.failedChunks),
      ("communities", stats.communities.toJson), ("modularity", .float stats.modularity)]

/-- The phases by their names. -/
def Phase.byName : List Phase :=
  Phase.all.mergeSort fun one other => decide (one.name ≤ other.name)

def IndexResult.report (result : IndexResult) (clock : Clock) (repoPath : String) : Json :=
  let path := fun (name : String) (value? : Option String) =>
    value?.toList.map fun value => (name, Json.string value)
  .object <|
    [("repo_path", .string repoPath), ("indexed_at", .string clock.indexedAt),
      ("stats", result.stats.toJson),
      ("timings", .object
        (Phase.byName.map fun phase => (phase.name, .float (clock.seconds phase)))),
      ("total_ms", .float clock.milliseconds)] ++
      path "graph_path" result.graphPath ++ path "communities_path" result.communitiesPath

/-! The summary for readers -/

/-- Pads a label to the width of its column. -/
def padded (width : Nat) (text : String) : String :=
  text ++ String.ofList (List.replicate (width - text.length) ' ')

def summaryLine (label value : String) : String :=
  "  " ++ padded 14 label ++ " " ++ value ++ "\n"

def IndexResult.summary (result : IndexResult) (clock : Clock) (config : Config)
    (showsTimings : Bool) : String :=
  let stats := result.stats
  let name := ((Text.Path.fileName? config.repoPath).map String.ofList).getD ""
  "\n✓  relgraph index: " ++ name ++ "\n" ++
    summaryLine "Files:" (toString stats.files) ++
    summaryLine "Chunks:" (toString stats.chunks) ++
    summaryLine "Edges:" (toString stats.edges) ++
    summaryLine "Resolved:" (toString stats.resolvedTargets ++ " of " ++ toString stats.edges) ++
    summaryLine "Phantoms:" (toString stats.phantoms) ++
    (if config.detectsCommunities then
      summaryLine "Communities:"
        (toString stats.communities.count ++ " (modularity " ++
          Decimal.fixedText 3 stats.modularity ++ ")")
    else "") ++
    (if stats.failedChunks > 0 then summaryLine "Failed:" (toString stats.failedChunks) else "") ++
    summaryLine "Duration:" (clock.label clock.milliseconds) ++
    (if showsTimings then
      "\n  Phase Timings:\n" ++
        String.join (Phase.byName.map fun phase =>
          "    " ++ padded 14 phase.name ++ " " ++ clock.label (clock.seconds phase * 1000.0) ++
            "\n")
    else "") ++
    (match result.graphPath with
      | some path => "\n  Graph written to: " ++ path ++ "\n"
      | none => "")

end CodeGraph
