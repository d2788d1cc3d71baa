import CodeGraph.Text.Split

namespace CodeGraph.Text.Path

/-! Paths as texts.  A path is compared by its components: repeated slashes and dots inside of it
are none, but a dot it starts with is one, and so are two dots. -/

def isRooted (path : String) : Bool :=
  path.toList.head? == some '/'

/-- A stretch of a path between slashes, and whether it is a component. -/
structure Segment where
  text : List Char
  isComponent : Bool
deriving DecidableEq, Repr

private def laterSegment (text : List Char) : Segment :=
  { text, isComponent := !(text == [] || text == ['.']) }

/-- The stretches between slashes, the leading slash of a rooted path apart. -/
def segments (path : String) : List Segment :=
  match path.toList with
  | '/' :: rest => (splitAt '/' rest).map laterSegment
  | text =>
      match splitAt '/' text with
      | first :: rest => { text := first, isComponent := first != [] } :: rest.map laterSegment
      | [] => []

/-- The components in order; the root of a rooted path is its first. -/
def components (path : String) : List (List Char) :=
  (if isRooted path then [['/']] else []) ++
    ((segments path).filter Segment.isComponent).map Segment.text

def joinSegments (parts : List (List Char)) : List Char :=
  List.intercalate ['/'] parts

/-- The path without the slashes and dots at its end. -/
def normalizeEnd (path : String) : String :=
  let kept := ((segments path).reverse.dropWhile fun part => !part.isComponent).reverse
  String.ofList
    ((if isRooted path then ['/'] else []) ++ joinSegments (kept.map Segment.text))

/-- Drops segments up to and including the given number of components. -/
private def dropComponents : Nat → List Segment → List Segment
  | 0, parts => parts
  | _ + 1, [] => []
  | count + 1, part :: rest =>
      if part.isComponent then dropComponents count rest else dropComponents (count + 1) rest

/-- The path below the given directory, or nothing when it does not start with the components of
that directory. -/
def stripDirectory? (directory path : String) : Option String :=
  let base := components directory
  if base.isPrefixOf (components path) then
    if base.isEmpty then some (normalizeEnd path)
    else
      let count := if isRooted path then base.length - 1 else base.length
      let rest := (dropComponents count (segments path)).dropWhile fun part => !part.isComponent
      let rest := (rest.reverse.dropWhile fun part => !part.isComponent).reverse
      some (String.ofList (joinSegments (rest.map Segment.text)))
  else none

/-- The last component, unless it is the root or made of dots only. -/
def fileName? (path : String) : Option (List Char) :=
  match (components path).getLast? with
  | some name => if name == ['/'] || name == ['.'] || name == ['.', '.'] then none else some name
  | none => none

/-- A file name split at its last dot.  A name without a dot, or with none but in front, has no
extension. -/
def splitExtension (name : List Char) : List Char × Option (List Char) :=
  let extension := afterLast '.' name
  let stem := name.take (name.length - extension.length - 1)
  if extension.length == name.length || stem == [] then (name, none) else (stem, some extension)

def stem? (path : String) : Option String :=
  (fileName? path).map fun name => String.ofList (splitExtension name).1

def extension? (path : String) : Option String :=
  (fileName? path).bind fun name => (splitExtension name).2.map String.ofList

/-- The second path as seen from the first: itself if it is rooted. -/
def join (directory path : String) : String :=
  if isRooted path || directory == "" then path
  else if directory.toList.getLast? == some '/' then directory ++ path
  else directory ++ "/" ++ path

end CodeGraph.Text.Path
