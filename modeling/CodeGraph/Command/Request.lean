import CodeGraph.Command.Arguments
import CodeGraph.Count
import CodeGraph.Decimal.Parse

namespace CodeGraph

/-! What the command line asks for. -/

inductive Command where
  /-- Index a project and save its graph. -/
  | index (path : String) (output? : Option String) (resolution? : Option Float)
      (seed? threads? : Option Nat) (excludes : List String)
      (withoutCommunities asJson isQuiet : Bool)
  /-- List what is near a node. -/
  | neighbors (graph id : String) (relations : List String) (depth : Nat) (isWeighted : Bool)
  /-- Find a shortest path. -/
  | path (graph source target : String) (maxHops : Nat) (types : List String)
  /-- Rank the nodes. -/
  | centrality (graph method : String) (top : Nat)
  /-- Sum up the communities. -/
  | communities (graph : String)
  /-- Show the part of the graph around some nodes. -/
  | subgraph (graph : String) (results others : List String) (withoutBoundary : Bool)
      (centrality? : Option String)
deriving Repr, Inhabited

structure Request where
  isVerbose : Bool := false
  config? : Option String := none
  command : Command
deriving Repr, Inhabited

/-- The directory that an index is kept in. -/
def indexDirectory : String := ".relgraph"

namespace Request

/-! Options -/

def flag (name : String) (letter : Option Char) : OptionSpec :=
  { name, letter }

def option (name : String) (letter : Option Char) : OptionSpec :=
  { name, letter, takesValue := true }

def listOption (name : String) (letter : Option Char) : OptionSpec :=
  { name, letter, takesValue := true, repeats := true }

def globalOptions : List OptionSpec :=
  [flag "verbose" (some 'v'), option "config" (some 'c')]

def graphOption : OptionSpec := option "graph" (some 'g')

def optionsOf? : String → Option (List OptionSpec)
  | "index" =>
      some
        [option "output" (some 'o'), option "resolution" none, option "seed" none,
          option "threads" none, listOption "exclude" none, flag "no-communities" none,
          flag "json" none, flag "quiet" none]
  | "neighbors" =>
      some
        [graphOption, listOption "relations" (some 'r'), option "depth" (some 'd'),
          flag "weighted" none]
  | "path" => some [graphOption, option "max-hops" none, listOption "types" (some 't')]
  | "centrality" => some [graphOption, option "method" (some 'm'), option "top" none]
  | "communities" => some [graphOption]
  | "subgraph" =>
      some [graphOption, listOption "ego" none, flag "no-boundary" none, option "centrality" none]
  | _ => none

/-! Values -/

/-- A path is never empty. -/
def pathText? (text : String) : Option String :=
  if text = "" then none else some text

def word? : String → Option Nat :=
  Decimal.parseNatural? wordSize

def graphOf? (arguments : Arguments) : Option String :=
  (arguments.decoded? graphOption.name pathText?).map fun graph? => graph?.getD indexDirectory

def naturalOf? (arguments : Arguments) (name : String) (default : Nat) : Option Nat :=
  (arguments.decoded? name word?).map fun value? => value?.getD default

def commandOf? (name : String) (arguments : Arguments) : Option Command :=
  match name, arguments.words with
  | "index", [path] => do
      let path ← pathText? path
      let output? ← arguments.decoded? "output" pathText?
      let resolution? ← arguments.decoded? "resolution" Decimal.parse?
      let seed? ← arguments.decoded? "seed" word?
      let threads? ← arguments.decoded? "threads" word?
      pure (.index path output? resolution? seed? threads? (arguments.values "exclude")
        (arguments.has "no-communities") (arguments.has "json") (arguments.has "quiet"))
  | "neighbors", [id] => do
      let graph ← graphOf? arguments
      let depth ← naturalOf? arguments "depth" 1
      let relations :=
        if arguments.has "relations" then arguments.pieces "relations"
        else ["calls", "called_by"]
      pure (.neighbors graph id relations depth (arguments.has "weighted"))
  | "path", [source, target] => do
      let graph ← graphOf? arguments
      let maxHops ← naturalOf? arguments "max-hops" 5
      pure (.path graph source target maxHops (arguments.pieces "types"))
  | "centrality", [] => do
      let graph ← graphOf? arguments
      let top ← naturalOf? arguments "top" 20
      pure (.centrality graph ((arguments.value? "method").getD "pagerank") top)
  | "communities", [] => do
      let graph ← graphOf? arguments
      pure (.communities graph)
  | "subgraph", first :: rest => do
      let graph ← graphOf? arguments
      pure (.subgraph graph (first :: rest) (arguments.pieces "ego")
        (arguments.has "no-boundary") (arguments.value? "centrality"))
  | _, _ => none

/-- The request of a command line, or nothing if it cannot be understood.  Global options may stand
in front of the command or behind it, where they count more. -/
def ofArguments? (words : List String) : Option Request := do
  let front ← Arguments.read? globalOptions true words
  match front.rest with
  | [] => none
  | name :: rest =>
      let options ← optionsOf? name
      let arguments ← Arguments.read? (globalOptions ++ options) false rest
      if !front.isProper || !arguments.isProper then none
      else
        let outer ← front.decoded? "config" pathText?
        let inner ← arguments.decoded? "config" pathText?
        let command ← commandOf? name arguments
        pure
          { isVerbose := front.has "verbose" || arguments.has "verbose"
            config? := inner.orElse fun _ => outer
            command }

end Request

end CodeGraph
