import CodeGraph.Command.Request
import CodeGraph.Graph.Centrality
import CodeGraph.Index.Report
import CodeGraph.Subgraph.Document

namespace CodeGraph

/-! Answers to requests. -/

/-- What a run leaves behind. -/
structure Outcome where
  status : Nat := 0
  output : String := ""
  complaint : String := ""
  files : Files

namespace Outcome

/-- Lines of output, or a complaint about what went wrong. -/
def ofLines (files : Files) : Except String (List String) → Outcome
  | .ok lines => { output := String.join (lines.map (· ++ "\n")), files }
  | .error reason => { status := 1, complaint := "error: " ++ reason ++ "\n", files }

/-- The command line could not be understood. -/
def usage (files : Files) : Outcome :=
  { status := 2, files }

end Outcome

/-- A failure, with what was being done in front of it. -/
def during {α : Type} (what : String) : Except Error α → Except String α
  | .ok value => .ok value
  | .error reason => .error (what ++ ": " ++ reason.chain)

def plainly {α : Type} : Except Error α → Except String α
  | .ok value => .ok value
  | .error reason => .error reason.chain

namespace Request

def loadConfig (request : Request) (files : Files) : Except String Config :=
  match request.config? with
  | some path => during ("failed to read config " ++ path) (files.readConfig path)
  | none => .ok {}

def loadGraph (files : Files) (directory : String) : Except String Store :=
  let path := Text.Path.join directory graphFileName
  during ("failed to load graph from " ++ path) (files.readStore path)

def loadCommunities (files : Files) (directory : String) : Except String Communities :=
  let path := Text.Path.join directory communityFileName
  during ("failed to load communities from " ++ path) (files.readCommunities path)

/-! Lines of output -/

def alignRight (width : Nat) (text : String) : String :=
  String.ofList (List.replicate (width - text.length) ' ') ++ text

def neighborLines (neighbors : List String) : List String :=
  if neighbors.isEmpty then ["No neighbours found"] else neighbors

def pathLines (maxHops : Nat) : Option (List String) → List String
  | some path => path.zipIdx.map fun entry =>
      "  " ++ alignRight 2 (toString entry.2) ++ ". " ++ entry.1
  | none => ["No path within " ++ toString maxHops ++ " hops"]

/-- Higher scores come first, then smaller ids. -/
def outranks (one other : String × Float) : Bool :=
  decide (orderKey other.2 < orderKey one.2) ||
    (orderKey one.2 == orderKey other.2 && !decide (other.1 < one.1))

def rankLines (top : Nat) (scores : NameMap Float) : List String :=
  ((scores.mergeSort outranks).take top).map fun entry =>
    "  " ++ alignRight 8 (Decimal.fixedText 4 entry.2) ++ "  " ++ entry.1

def communityLines (stats : CommunityStats) : List String :=
  [("Communities:", toString stats.count),
    ("Average size:", Decimal.fixedText 1 stats.averageSize),
    ("Largest:", toString stats.largest), ("Smallest:", toString stats.smallest)].map
    fun entry => "  " ++ padded 14 entry.1 ++ " " ++ entry.2

/-! Commands -/

def subgraphLines (files : Files) (config : Config) (graph : String)
    (results others : List String) (withoutBoundary : Bool) (centrality? : Option String) :
    Except String (List String) := do
  let store ← loadGraph files graph
  let communities? := (loadCommunities files graph).toOption
  let scores? ←
    match centrality? with
    | some name => do
        let method ← plainly (CentralityMethod.ofName name)
        pure (some (store.centrality method))
    | none => .ok none
  let options := SubgraphOptions.ofConfig config
  let options :=
    if withoutBoundary then { options with includesBoundary := false } else options
  .ok [(store.subgraph results others scores? communities? options).toJson.render]

/-- The lines that answer a query. -/
def queryLines (files : Files) (config : Config) : Command → Except String (List String)
  | .index .. => .ok []
  | .neighbors graph id relations depth isWeighted => do
      let store ← loadGraph files graph
      let weights? := if isWeighted then some config.edgeWeights else none
      .ok (neighborLines (store.neighbors id relations depth weights?))
  | .path graph source target maxHops types => do
      let store ← loadGraph files graph
      let types? := if types.isEmpty then none else some types
      .ok (pathLines maxHops (store.findPath? source target maxHops types?))
  | .centrality graph name top => do
      let store ← loadGraph files graph
      let method ← plainly (CentralityMethod.ofName name)
      .ok (rankLines top (store.centrality method))
  | .communities graph => do
      let communities ← loadCommunities files graph
      .ok (communityLines communities.stats)
  | .subgraph graph results others withoutBoundary centrality? =>
      subgraphLines files config graph results others withoutBoundary centrality?

variable {m : Type → Type} [Monad m]

/-- Indexes with the given settings, and tells about it as was asked for. -/
def runIndex (announce : Phase → m Unit) (clock : m Clock) (files : Files) (config : Config)
    (showsTimings asJson isQuiet : Bool) : m Outcome := do
  let (result, files) ← config.indexWith announce files
  let clock ← clock
  match result with
  | .error reason => pure (.ofLines files (.error ("indexing failed: " ++ reason.chain)))
  | .ok result =>
      pure
        { output :=
            if asJson then (result.report clock config.repoPath).render ++ "\n"
            else if isQuiet then ""
            else result.summary clock config showsTimings
          files }

/-- Answers a request.  Indexing announces its phases and asks for the time. -/
def run (announce : Phase → m Unit) (clock : m Clock) (files : Files) (request : Request) :
    m Outcome := do
  match request.loadConfig files, request.command with
  | .error reason, _ => pure (.ofLines files (.error reason))
  | .ok config,
    .index path output? resolution? seed? threads? excludes withoutCommunities asJson isQuiet =>
      match files.canonical path with
      | .error reason =>
          pure (.ofLines files
            (.error ("repository not found: " ++ path ++ ": " ++ reason.message)))
      | .ok repoPath =>
          let config :=
            { config with
              repoPath
              outputDir := some (output?.getD (Text.Path.join repoPath indexDirectory))
              excludes := config.excludes ++ excludes
              resolution := resolution?.getD config.resolution
              seed := seed?.getD config.seed
              threads := threads?.getD config.threads
              detectsCommunities := config.detectsCommunities && !withoutCommunities }
          runIndex announce clock files config request.isVerbose asJson isQuiet
  | .ok config, command => pure (.ofLines files (queryLines files config command))

end Request

end CodeGraph
