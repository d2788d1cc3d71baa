import CodeGraph.Community.Detect
import CodeGraph.Community.Document
import CodeGraph.Graph.Document
import CodeGraph.Index.References
import CodeGraph.Index.Sources
import CodeGraph.Json.Read
import CodeGraph.Json.Write

namespace CodeGraph

/-! Indexing a project: its chunks, their references, their communities, and the files that keep
all of it. -/

def graphFileName : String := "relationship_graph.json"

def communityFileName : String := "communities.json"

/-! Documents in files -/

def Files.readJson (files : Files) (path : String) : Except Error Json := do
  let text ← Error.ofFiles (files.readText path)
  Error.ofOption (Json.read? text)

def Files.readDocument (files : Files) (path : String) : Except Error GraphDocument := do
  Error.ofOption (GraphDocument.ofJson? (← files.readJson path))

def Files.readStore (files : Files) (path : String) : Except Error Store :=
  (files.readDocument path).map .ofDocument

/-- What becomes of any store that is loaded from a file: it is left empty if no graph can be read
there. -/
def Store.load (files : Files) (path : String) : Store :=
  match files.readDocument path with
  | .ok document => .ofDocument document
  | .error _ => {}

def Files.readCommunities (files : Files) (path : String) : Except Error Communities := do
  Error.ofOption (Communities.ofJson? (← files.readJson path))

def Files.readConfig (files : Files) (path : String) : Except Error Config := do
  Error.ofOption (Config.ofJson? (← files.readJson path))

def Files.writeJson (files : Files) (path : String) (document : Json) : Except Error Files :=
  Error.ofFiles (files.writeText path document.render)

/-! Phases -/

inductive Phase where
  | chunking
  | relationships
  | communities
  | persist
deriving DecidableEq, Repr, Inhabited

namespace Phase

/-- The phases in the order they run. -/
def all : List Phase := [chunking, relationships, communities, persist]

def name : Phase → String
  | chunking => "chunking"
  | relationships => "relationships"
  | communities => "communities"
  | persist => "persist"

def label : Phase → String
  | chunking => "Chunking source files"
  | relationships => "Extracting relationships"
  | communities => "Detecting communities"
  | persist => "Saving graph"

end Phase

structure IndexStats where
  files : Nat := 0
  chunks : Nat := 0
  nodes : Nat := 0
  edges : Nat := 0
  phantoms : Nat := 0
  resolvedTargets : Nat := 0
  failedChunks : Nat := 0
  communities : CommunityStats := {}
  modularity : Float := 0.0
deriving Repr, Inhabited

/-- What an indexing run makes. -/
structure IndexResult where
  store : Store
  communities : Communities
  stats : IndexStats
  graphPath : Option String := none
  communitiesPath : Option String := none
deriving Repr, Inhabited

/-- The communities, if they are wanted. -/
def Config.detection (config : Config) (store : Store) : Detection :=
  if config.detectsCommunities then store.detectOrNone config.resolution config.seed else {}

/-- The result of the phases, before anything is saved. -/
def IndexResult.ofPhases (chunks : List Chunk) (store : Store) (references : ReferenceStats)
    (detection : Detection) : IndexResult :=
  { store
    communities := detection.communities
    stats :=
      { files := (chunks.map Chunk.file).eraseDups.length
        chunks := chunks.length
        nodes := store.nodes.length
        edges := store.edges.length
        phantoms := store.phantomIds.length
        resolvedTargets := references.resolvedTargets
        failedChunks := references.failedChunks
        communities := detection.communities.stats
        modularity := detection.modularity } }

/-- Saves a result in a directory.  The files change even if only the first document can be
written. -/
def IndexResult.save (result : IndexResult) (withCommunities : Bool) (directory : String)
    (files : Files) : Except Error IndexResult × Files :=
  let graphPath := Text.Path.join directory graphFileName
  match files.writeJson graphPath result.store.toJson with
  | .error reason => (.error reason, files)
  | .ok files =>
      let result := { result with graphPath := some graphPath }
      if withCommunities then
        let communitiesPath := Text.Path.join directory communityFileName
        match files.writeJson communitiesPath result.communities.toJson with
        | .error reason => (.error reason, files)
        | .ok files => (.ok { result with communitiesPath := some communitiesPath }, files)
      else (.ok result, files)

/-- Saves a result if there is a directory for it. -/
def Config.persist (config : Config) (result : IndexResult) (files : Files) :
    Except Error IndexResult × Files :=
  match config.outputDir with
  | some directory => result.save config.detectsCommunities directory files
  | none => (.ok result, files)

/-- Indexes a project.  Each phase is announced before it runs. -/
@[nospecialize]
def Config.indexWith {m : Type → Type} [Monad m] (announce : Phase → m Unit) (config : Config)
    (files : Files) : m (Except Error IndexResult × Files) := do
  announce .chunking
  let chunks := config.chunks files
  announce .relationships
  let (store, references) := ({} : Store).addChunks files.readText? chunks
  announce .communities
  let detection := config.detection store
  announce .persist
  pure (config.persist (.ofPhases chunks store references detection) files)

/-- Indexes a project in silence. -/
def Config.index (config : Config) (files : Files) : Except Error IndexResult × Files :=
  Id.run (config.indexWith (fun _ => pure ()) files)

end CodeGraph
