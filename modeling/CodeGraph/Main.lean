import CodeGraph.Command.Run
import CodeGraph.Text.Timestamp
import Std.Time.DateTime.Timestamp

namespace CodeGraph.Shell

/-! The program: what a request needs is read from the disk, the answer is printed, and what was
written is put on the disk. -/

/-- The content of a regular file. -/
def loadFile (path : String) : IO FileTree := do
  let full := (← IO.currentDir) / path
  try return .file (← IO.FS.readBinFile full)
  catch _ => return .closed (.file (← full.metadata).byteSize.toNat)

mutual

/-- Whatever is on the disk at a path.  What cannot be read becomes a closed entry. -/
partial def loadTree (path : String) : IO FileTree := do
  let full := (← IO.currentDir) / path
  try
    match (← full.symlinkMetadata).type with
    | .dir => loadDirectory path
    | .file => loadFile path
    | .symlink => return .closed .link
    | .other => return .closed .special
  catch _ => return .closed .unknown

partial def loadDirectory (path : String) : IO FileTree := do
  let full := (← IO.currentDir) / path
  try
    let mut entries : NameMap FileTree := []
    for entry in ← full.readDir do
      entries := entries.insert entry.fileName (← loadTree entry.path.toString)
    return .directory entries
  catch _ => return .closed .directory

end

/-- Adds a document of the disk, if it is there. -/
def loadDocument (files : Files) (path : String) : IO Files := do
  let here ← IO.currentDir
  let full := here / path
  if (← full.pathExists) && !(← full.isDir) then
    match files.write path (← loadFile path) with
    | .ok files => return { files with written := [] }
    | .error _ => return files
  else
    return files

/-- Adds a project of the disk, if it is there.  Its own path may be a link to a directory. -/
def loadProject (files : Files) (path : String) : IO Files := do
  let here ← IO.currentDir
  let full := here / path
  if ← full.isDir then
    let tree ← loadDirectory path
    match files.makeDirectories path with
    | .ok (files, place) =>
        return { files with root := (files.root.put? place tree).getD files.root }
    | .error _ => return files
  else if ← full.pathExists then
    match files.write path (← loadTree path) with
    | .ok files => return { files with written := [] }
    | .error _ => return files
  else
    return files

/-- The documents that a request may read. -/
def documentsOf (request : Request) : List String :=
  let inGraph := fun (graph : String) =>
    [Text.Path.join graph graphFileName, Text.Path.join graph communityFileName]
  request.config?.toList ++
    match request.command with
    | .index .. => []
    | .neighbors graph .. => inGraph graph
    | .path graph .. => inGraph graph
    | .centrality graph .. => inGraph graph
    | .communities graph => inGraph graph
    | .subgraph graph .. => inGraph graph

def load (request : Request) : IO Files := do
  let here ← IO.currentDir
  let place := (Text.splitAt '/' here.toString.toList).map String.ofList |>.filter (· != "")
  let start : Files := {}
  let mut files : Files :=
    match start.makeDirectories here.toString with
    | .ok (files, _) => { files with here := place }
    | .error _ => start
  if let .index path .. := request.command then
    files ← loadProject files path
  for document in documentsOf request do
    files ← loadDocument files document
  return files

/-- Replaces a file on the disk in one step. -/
def store (path : String) (content : FileTree) : IO Unit := do
  let here ← IO.currentDir
  let full := here / path
  match content with
  | .closed _ => return
  | .directory _ => IO.FS.createDirAll full
  | .file bytes =>
      if let some parent := full.parent then
        IO.FS.createDirAll parent
      let beside := here / (path ++ ".tmp")
      IO.FS.writeBinFile beside bytes
      IO.FS.rename beside full

/-- The time since each phase was announced until the next one was. -/
def clockOf (start : Nat) (marks : IO.Ref (List (Phase × Nat))) : IO Clock := do
  let stop ← IO.monoNanosNow
  let now ← Std.Time.Timestamp.now
  let marks ← marks.get
  let ends := (marks.map Prod.snd).drop 1 ++ [stop]
  let spans := (marks.zip ends).map fun entry => (entry.1.1, entry.2 - entry.1.2)
  let seconds := fun (phase : Phase) =>
    match spans.find? fun entry => entry.1 == phase with
    | some (_, span) => span.toFloat / 1000000000.0
    | none => 0.0
  return {
    indexedAt := Text.timestampText now.toSecondsSinceUnixEpoch.val.toNat
    seconds
    milliseconds := (stop - start).toFloat / 1000000.0 }

def answer (request : Request) : IO UInt32 := do
  let start ← IO.monoNanosNow
  let files ← load request
  let marks ← IO.mkRef ([] : List (Phase × Nat))
  let announce := fun (phase : Phase) => do
    let now ← IO.monoNanosNow
    marks.modify (· ++ [(phase, now)])
  let outcome ← request.run announce (clockOf start marks) files
  try
    for (path, content) in outcome.files.written do
      store path content
    IO.print outcome.output
    IO.eprint outcome.complaint
    return outcome.status.toUInt32
  catch reason =>
    IO.eprintln ("error: indexing failed: Graph I/O error: " ++ reason.toString)
    return 1

end CodeGraph.Shell

def main (arguments : List String) : IO UInt32 := do
  match CodeGraph.Request.ofArguments? arguments with
  | some request => CodeGraph.Shell.answer request
  | none =>
      IO.eprintln ("usage: relgraph [-v] [-c CONFIG] " ++
        "<index|neighbors|path|centrality|communities|subgraph> ...")
      return 2
