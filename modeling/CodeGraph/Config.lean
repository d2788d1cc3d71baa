import CodeGraph.Count
import CodeGraph.Graph.Query
import CodeGraph.Json.Decode

namespace CodeGraph

/-! Settings of an indexing run. -/

structure Config where
  repoPath : String := ""
  outputDir : Option String := none
  /-- Names of files and directories to leave out. -/
  excludes : List String := []
  maxFileSize : Nat := 1000000
  resolution : Float := 1.0
  seed : Nat := 42
  threads : Nat := 0
  detectsCommunities : Bool := true
  includesBoundary : Bool := true
  maxBoundaryEdges : Nat := 3
  edgeWeights : Weights := NameMap.ofList Relation.defaultWeights
deriving Repr, Inhabited

namespace Config

def fields : List (List String) :=
  [["repo_path"], ["output_dir"], ["exclude_patterns"], ["max_file_size"], ["resolution"], ["seed"],
    ["threads"], ["detect_communities"], ["include_boundary_edges"], ["max_boundary_edges"],
    ["edge_weights"]]

def ofSlots? : List Json.Slot → Option Config
  | [repoPath, outputDir, excludes, maxFileSize, resolution, seed, threads, detectsCommunities,
      includesBoundary, maxBoundaryEdges, edgeWeights] => do
      let base : Config := {}
      let word := Json.asNatural? wordSize
      let repoPath ← repoPath.defaulted? base.repoPath Json.asString?
      let outputDir ← outputDir.optional? Json.asString?
      let excludes ← excludes.defaulted? base.excludes (Json.asList? Json.asString?)
      let maxFileSize ← maxFileSize.defaulted? base.maxFileSize word
      let resolution ← resolution.defaulted? base.resolution Json.asFloat?
      let seed ← seed.defaulted? base.seed word
      let threads ← threads.defaulted? base.threads word
      let detectsCommunities ← detectsCommunities.defaulted? base.detectsCommunities Json.asBool?
      let includesBoundary ← includesBoundary.defaulted? base.includesBoundary Json.asBool?
      let maxBoundaryEdges ← maxBoundaryEdges.defaulted? base.maxBoundaryEdges word
      let edgeWeights ← edgeWeights.defaulted? base.edgeWeights fun document =>
        (Json.asEntries? Json.asFloat? document).map NameMap.ofList
      pure
        { repoPath, outputDir, excludes, maxFileSize, resolution, seed, threads,
          detectsCommunities, includesBoundary, maxBoundaryEdges, edgeWeights }
  | _ => none

/-- The settings of a document; what it leaves out has its usual value. -/
def ofJson? (document : Json) : Option Config :=
  (document.slots? fields).bind ofSlots?

end Config

end CodeGraph
