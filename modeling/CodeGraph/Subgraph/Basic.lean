import CodeGraph.Community.Basic
import CodeGraph.Config
import CodeGraph.Graph.Order
import CodeGraph.Text.Path

namespace CodeGraph

/-! The part of the graph around some search results. -/

structure SubgraphOptions where
  includesBoundary : Bool := true
  /-- The most edges out of the subgraph that are listed for one node and direction. -/
  maxBoundaryEdges : Nat := 3
  /-- Paths are shown relative to this directory. -/
  projectRoot : Option String := none
deriving DecidableEq, Repr, Inhabited

def SubgraphOptions.ofConfig (config : Config) : SubgraphOptions :=
  { includesBoundary := config.includesBoundary
    maxBoundaryEdges := config.maxBoundaryEdges
    projectRoot := if config.repoPath = "" then none else some config.repoPath }

structure SubgraphNode where
  node : Node
  /-- The file as it is shown. -/
  file : Option String
  isResult : Bool
  community : Option Nat
  centrality : Option Float
deriving Repr, Inhabited

inductive Direction where
  | outgoing
  | incoming
deriving DecidableEq, Repr, Inhabited

def Direction.name : Direction → String
  | outgoing => "outgoing"
  | incoming => "incoming"

structure CommunitySummary where
  id : Nat
  memberCount : Nat
  /-- The name of the directory that most members are in. -/
  label : Option String
deriving DecidableEq, Repr, Inhabited

structure Subgraph where
  nodes : List SubgraphNode := []
  edges : List Edge := []
  boundary : List (Edge × Direction) := []
  communities : List CommunitySummary := []
  hasCycles : Bool := false
deriving Repr, Inhabited

/-! Members -/

/-- A node of the subgraph, and whether it is one of the results. -/
structure Member where
  id : String
  isResult : Bool
deriving DecidableEq, Repr, Inhabited

/-- The known ids once each.  An id that is also a result counts as one. -/
def Store.members (store : Store) (results others : List String) : List Member :=
  firstBy Member.id [] <|
    ((results.map fun id => Member.mk id true) ++ (others.map fun id => Member.mk id false)).filter
      fun member => store.has member.id

/-! Edges -/

def Store.innerEdges (store : Store) (ids : List String) : List Edge :=
  ids.flatMap fun id => (store.edgesFrom id).filter fun edge => ids.contains edge.target

def Store.boundaryEdges (store : Store) (limit : Nat) (members : List Member) :
    List (Edge × Direction) :=
  let ids := members.map Member.id
  let results := (members.filter Member.isResult).map Member.id
  (results.flatMap fun id =>
    (((store.edgesFrom id).filter fun edge => !ids.contains edge.target).take limit).map
      fun edge => (edge, .outgoing)) ++
  (results.flatMap fun id =>
    (((store.edgesTo id).filter fun edge => !ids.contains edge.source).take limit).map
      fun edge => (edge, .incoming))

/-! Nodes -/

/-- To four decimal places, a half away from zero. -/
def rounded (x : Float) : Float :=
  (x * 10000.0).round / 10000.0

/-- The path below the project with forward slashes. -/
def shownPath (root? : Option String) (file : String) : String :=
  Text.forwardSlashes ((root?.bind fun root => Text.Path.stripDirectory? root file).getD file)

/-! Communities -/

def directoryOf (file : String) : String :=
  if file.toList.contains '/' then
    String.ofList (file.toList.take (file.length - (Text.afterLast '/' file.toList).length - 1))
  else "."

/-- The item that occurs most often; of several the smallest. -/
def mostCommon? (items : List String) : Option String :=
  items.foldl
    (fun best item =>
      match best with
      | none => some item
      | some known =>
          if items.count known < items.count item ∨
              (items.count known = items.count item ∧ item < known) then some item
          else some known)
    none

def directoryLabel? (files : List String) : Option String :=
  (mostCommon? (files.map directoryOf)).map fun directory =>
    String.ofList (Text.afterLast '/' directory.toList)

def summaries (nodes : List SubgraphNode) : List CommunitySummary :=
  (nodes.filterMap SubgraphNode.community).eraseDups.mergeSort.map fun id =>
    let members := nodes.filter fun node => node.community == some id
    { id
      memberCount := members.length
      label := directoryLabel? (members.filterMap SubgraphNode.file) }

/-! The whole -/

/-- The nodes of some ids and the edges between them, in the order of the edges. -/
def Store.subgraph (store : Store) (results others : List String)
    (centrality? : Option (NameMap Float)) (communities? : Option Communities)
    (options : SubgraphOptions) : Subgraph :=
  let members := store.members results others
  let ids := members.map Member.id
  let edges := store.innerEdges ids
  let graph := Digraph.ofLinks ids.length
    (edges.map fun edge => (ids.idxOf edge.source, ids.idxOf edge.target))
  let ordered := graph.ordered
  let nodes := ordered.1.filterMap fun index => do
    let member ← members[index]?
    let node ← store.node? member.id
    pure
      { node
        file := node.file?.map (shownPath options.projectRoot)
        isResult := member.isResult
        community := communities?.bind fun communities => communities.get? member.id
        centrality := (centrality?.bind fun scores => scores.get? member.id).map rounded }
  { nodes
    edges
    boundary :=
      if options.includesBoundary then store.boundaryEdges options.maxBoundaryEdges members
      else []
    communities := summaries nodes
    hasCycles := ordered.2 }

end CodeGraph
