import CodeGraph.Chunk.Split
import CodeGraph.Config
import CodeGraph.Files.Basic

namespace CodeGraph

/-! The source files of a project. -/

/-- Names of files and directories that are never indexed. -/
def defaultExcludes : List String :=
  [".git", "node_modules", "__pycache__", ".vs", ".vscode", ".idea", "dist", "build", "target",
    ".mypy_cache", ".pytest_cache", ".tox", ".eggs", ".venv", "venv", ".env"]

def isHidden (name : String) : Bool :=
  name.toList.head? == some '.'

mutual

/-- All below a path that is no directory, in the order of the names.  Hidden directories and all
that has an excluded name are left out, and a directory that may not be listed has nothing in it. -/
def FileTree.filesBelow (excludes : List String) (path : String) :
    FileTree → List (String × FileTree)
  | .directory entries => filesOfEntries excludes path entries
  | .closed .directory => []
  | tree => [(path, tree)]

def FileTree.filesOfEntries (excludes : List String) (path : String) :
    List (String × FileTree) → List (String × FileTree)
  | [] => []
  | (name, tree) :: rest =>
      (if excludes.contains name || (tree.isDirectory && isHidden name) then []
        else tree.filesBelow excludes (Text.Path.join path name)) ++
        filesOfEntries excludes path rest

end

/-- The name of the project's directory, which may be excluded too. -/
def rootName (path : String) : String :=
  ((Text.Path.fileName? path).map String.ofList).getD path

/-- What the walk through the project meets, with the paths. -/
def Files.below (files : Files) (excludes : List String) (path : String) :
    List (String × FileTree) :=
  match files.lookup path with
  | .error _ => []
  | .ok tree =>
      if excludes.contains (rootName path) then [] else tree.filesBelow excludes path

/-- The chunks of a regular file, if it is a source file that is not too large and can be read. -/
def chunksOfFile? (config : Config) (path : String) (tree : FileTree) : Option (List Chunk) := do
  let size ← tree.size?
  let extension ← Text.Path.extension? path
  let _ ← Language.ofExtension? extension
  if size > config.maxFileSize then none
  else
    let shown := (Text.Path.stripDirectory? config.repoPath path).getD path
    let text ← tree.text.toOption
    Chunk.ofSource? (Text.forwardSlashes shown) path text

/-- The chunks of all source files of the project. -/
def Config.chunks (config : Config) (files : Files) : List Chunk :=
  (files.below (defaultExcludes ++ config.excludes) config.repoPath).flatMap fun entry =>
    (chunksOfFile? config entry.1 entry.2).getD []

end CodeGraph
