namespace CodeGraph

/-! Searches with a queue of nodes. -/

/-! For a path.  What a node was first met from is kept in a map, and the path is read off it in the
end. -/

/-- The node from which each node was first met, all nodes that were met, and those still to visit
with the number of hops to them. -/
structure PathSearch (α : Type) where
  parents : List (α × α)
  met : List α
  queue : List (α × Nat)
deriving DecidableEq, Repr, Inhabited

namespace PathSearch

variable {α : Type} [BEq α]

def initial (start : α) : PathSearch α :=
  { parents := [], met := [start], queue := [(start, 0)] }

/-- The way back from a node.  No entry of the map is used twice, so that their number is fuel
enough. -/
def wayBack (parents : List (α × α)) : Nat → α → List α
  | 0, node => [node]
  | fuel + 1, node =>
      match parents.lookup node with
      | none => [node]
      | some parent => node :: wayBack parents fuel parent

/-- Meets what a node leads to.  This is the path if the goal is new among it, and otherwise a
longer queue. -/
def visit (goal node : α) (hops : Nat) : PathSearch α → List α → List α ⊕ PathSearch α
  | search, [] => .inr search
  | search, target :: rest =>
      if search.met.contains target then visit goal node hops search rest
      else
        let parents := (target, node) :: search.parents
        if target == goal then .inl (wayBack parents parents.length goal).reverse
        else
          visit goal node hops
            { parents
              met := search.met ++ [target]
              queue := search.queue ++ [(target, hops + 1)] }
            rest

/-- Visits node after node from the front of the queue.  Nodes that are the most hops away lead
nowhere.  No node is queued twice, so that a bound on their number is fuel enough. -/
def run (next : α → List α) (goal : α) (maxHops : Nat) : Nat → PathSearch α → Option (List α)
  | 0, _ => none
  | fuel + 1, search =>
      match search.queue with
      | [] => none
      | (node, hops) :: queue =>
          if hops ≥ maxHops then run next goal maxHops fuel { search with queue }
          else
            match visit goal node hops { search with queue } (next node) with
            | .inl path => some path
            | .inr search => run next goal maxHops fuel search

end PathSearch

/-- The first of the shortest paths between two nodes.  The fuel bounds the number of nodes that can
be met. -/
def shortestPath? {α : Type} [BEq α] (next : α → List α) (fuel maxHops : Nat) (start goal : α) :
    Option (List α) :=
  if start == goal then some [start]
  else PathSearch.run next goal maxHops (fuel + 1) (.initial start)

/-! For all nodes that numbered nodes lead to, with notes of what happens on the way. -/

inductive SearchEvent where
  | visits (node : Nat)
  /-- A node is met for the first time. -/
  | meets (node distance : Nat)
  /-- A step leads to a node that is one farther from the start. -/
  | steps (node target : Nat)
deriving DecidableEq, Repr, Inhabited

/-- How far each node is that was met, the nodes still to visit, and the notes so far. -/
structure DistanceSearch (ν : Type) where
  distances : Array (Option Nat)
  queue : List Nat
  notes : ν
deriving Repr, Inhabited

namespace DistanceSearch

variable {ν : Type}

def initial (size start : Nat) (notes : ν) : DistanceSearch ν :=
  { distances := (Array.replicate size none).setIfInBounds start (some 0)
    queue := [start]
    notes }

def distance? (search : DistanceSearch ν) (node : Nat) : Option Nat :=
  search.distances.getD node none

/-- A node that is met for the first time is queued. -/
def meet (note : ν → SearchEvent → ν) (distance : Nat) (search : DistanceSearch ν)
    (target : Nat) : DistanceSearch ν :=
  match search.distance? target with
  | some _ => search
  | none =>
      { distances := search.distances.setIfInBounds target (some distance)
        queue := search.queue ++ [target]
        notes := note search.notes (.meets target distance) }

def follow (note : ν → SearchEvent → ν) (node : Nat) (search : DistanceSearch ν)
    (target : Nat) : DistanceSearch ν :=
  let farther := (search.distance? node).getD 0 + 1
  let search := search.meet note farther target
  if search.distance? target = some farther then
    { search with notes := note search.notes (.steps node target) }
  else search

/-- Visits node after node from the front of the queue. -/
def run (note : ν → SearchEvent → ν) (next : Nat → List Nat) :
    Nat → DistanceSearch ν → DistanceSearch ν
  | 0, search => search
  | fuel + 1, search =>
      match search.queue with
      | [] => search
      | node :: queue =>
          run note next fuel
            ((next node).foldl (follow note node)
              { search with queue, notes := note search.notes (.visits node) })

end DistanceSearch

/-- The notes of a search among the numbers below a size.  No node is queued twice, so that the size
is fuel enough. -/
def notesOfSearch {ν : Type} (note : ν → SearchEvent → ν) (next : Nat → List Nat)
    (size start : Nat) (notes : ν) : ν :=
  (DistanceSearch.run note next size (.initial size start notes)).notes

end CodeGraph
