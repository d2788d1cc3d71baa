import CodeGraph.Files.Tree

namespace CodeGraph

/-! Reading and writing files by their paths. -/

/-- A file system, the place of the working directory in it, and what was written to it. -/
structure Files where
  root : FileTree := .directory []
  here : List String := []
  written : List (String × FileTree) := []
deriving Inhabited

namespace Files

/-- The place that one stretch of a path leads to.  Only what is in a directory can be reached. -/
def step (files : Files) (place : List String) (part : String) :
    Except FileError (List String) :=
  match files.root.at? place with
  | none => .error .missing
  | some (.file _) => .error .notDirectory
  | some (.closed entry) => .error entry.obstacle
  | some (.directory entries) =>
      if part = "" ∨ part = "." then .ok place
      else if part = ".." then .ok place.dropLast
      else if (NameMap.get? entries part).isSome then .ok (place ++ [part])
      else .error .missing

def start (files : Files) (path : String) : List String :=
  if Text.Path.isRooted path then [] else files.here

def parts (path : String) : List String :=
  (Text.splitAt '/' path.toList).map String.ofList

/-- The place of an existing file or directory. -/
def locate (files : Files) (path : String) : Except FileError (List String) :=
  if path = "" then .error .missing
  else (parts path).foldlM files.step (files.start path)

def lookup (files : Files) (path : String) : Except FileError FileTree := do
  let place ← files.locate path
  match files.root.at? place with
  | some tree => .ok tree
  | none => .error .missing

def readText (files : Files) (path : String) : Except FileError String := do
  (← files.lookup path).text

def readText? (files : Files) (path : String) : Option String :=
  match files.readText path with
  | .ok text => some text
  | .error _ => none

def placeText (place : List String) : String :=
  "/" ++ "/".intercalate place

/-- The rooted path of a file or directory. -/
def canonical (files : Files) (path : String) : Except FileError String :=
  (files.locate path).map placeText

/-- Goes on to a directory, which is made if it is missing. -/
def enter (state : Files × List String) (part : String) :
    Except FileError (Files × List String) :=
  let (files, place) := state
  match files.step place part with
  | .ok next =>
      match files.root.at? next with
      | some (.directory _) => .ok (files, next)
      | some (.closed entry) => .error entry.obstacle
      | _ => .error .notDirectory
  | .error .missing =>
      match files.root.put? (place ++ [part]) (.directory []) with
      | some root => .ok ({ files with root }, place ++ [part])
      | none => .error .missing
  | .error reason => .error reason

def makeDirectories (files : Files) (path : String) : Except FileError (Files × List String) :=
  (parts path).foldlM enter (files, files.start path)

/-- Replaces a file by another in one step, through a file beside it.  Directories on the way are
made. -/
def write (files : Files) (path : String) (content : FileTree) : Except FileError Files := do
  let name := String.ofList (Text.afterLast '/' path.toList)
  let directory := String.ofList (path.toList.take (path.length - name.length))
  let (files, place) ← files.makeDirectories directory
  let isTaken := fun name =>
    ((files.root.at? (place ++ [name])).map FileTree.isDirectory).getD false
  if isTaken (name ++ ".tmp") ∨ isTaken name then .error .isDirectory
  else
    match (files.root.erase (place ++ [name ++ ".tmp"])).put? (place ++ [name]) content with
    | some root => .ok { files with root, written := files.written ++ [(path, content)] }
    | none => .error .missing

def writeText (files : Files) (path text : String) : Except FileError Files :=
  files.write path (.ofText text)

end Files

end CodeGraph
