import CodeGraph.NameMap
import CodeGraph.Text.Path

namespace CodeGraph

/-! Directories as values.  A place in a tree is the list of names on the way to it. -/

/-- What is in a directory and has no content that can be read. -/
inductive ClosedEntry where
  /-- A regular file that may not be read. -/
  | file (size : Nat)
  /-- A directory that may not be listed. -/
  | directory
  /-- A link, which is not followed. -/
  | link
  /-- A pipe, a socket or a device. -/
  | special
  /-- Something that cannot be examined. -/
  | unknown
deriving DecidableEq, Repr, Inhabited

inductive FileTree where
  | file (bytes : ByteArray)
  /-- The entries are listed by increasing name. -/
  | directory (entries : List (String × FileTree))
  | closed (entry : ClosedEntry)
deriving Inhabited

inductive FileError where
  | missing
  | denied
  | notDirectory
  | isDirectory
  | notText
deriving DecidableEq, Repr, Inhabited

def FileError.message : FileError → String
  | missing => "No such file or directory (os error 2)"
  | denied => "Permission denied (os error 13)"
  | notDirectory => "Not a directory (os error 20)"
  | isDirectory => "Is a directory (os error 21)"
  | notText => "stream did not contain valid UTF-8"

/-- Why nothing can be reached through a closed entry. -/
def ClosedEntry.obstacle : ClosedEntry → FileError
  | directory => .denied
  | file _ | special => .notDirectory
  | link | unknown => .missing

namespace FileTree

def ofText (text : String) : FileTree :=
  file text.toUTF8

def isDirectory : FileTree → Bool
  | directory _ | closed .directory => true
  | file _ | closed _ => false

/-- The size of a regular file. -/
def size? : FileTree → Option Nat
  | file bytes => some bytes.size
  | closed (.file size) => some size
  | directory _ | closed _ => none

/-- The content of a file. -/
def text : FileTree → Except FileError String
  | file bytes =>
      match String.fromUTF8? bytes with
      | some text => .ok text
      | none => .error .notText
  | directory _ => .error .isDirectory
  | closed _ => .error .denied

/-- The tree at a place. -/
def at? : FileTree → List String → Option FileTree
  | tree, [] => some tree
  | file _, _ :: _ | closed _, _ :: _ => none
  | directory entries, name :: rest =>
      match NameMap.get? entries name with
      | some inner => inner.at? rest
      | none => none

/-- Puts a tree at a place inside of a directory that exists. -/
def put? : FileTree → List String → FileTree → Option FileTree
  | _, [], new => some new
  | file _, _ :: _, _ | closed _, _ :: _, _ => none
  | directory entries, name :: rest, new =>
      match NameMap.get? entries name, rest with
      | _, [] => some (directory (NameMap.insert entries name new))
      | some inner, rest =>
          (inner.put? rest new).map fun inner => directory (NameMap.insert entries name inner)
      | none, _ :: _ => none

/-- Takes away what is at a place. -/
def erase : FileTree → List String → FileTree
  | tree, [] => tree
  | file bytes, _ :: _ => file bytes
  | closed entry, _ :: _ => closed entry
  | directory entries, [name] => directory (entries.filter fun entry => entry.1 != name)
  | directory entries, name :: rest =>
      match NameMap.get? entries name with
      | some inner => directory (NameMap.insert entries name (inner.erase rest))
      | none => directory entries

end FileTree

end CodeGraph
