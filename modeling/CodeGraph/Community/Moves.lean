import CodeGraph.Community.Network

namespace CodeGraph

/-! Moving nodes between communities as long as that pays.  The arithmetic of gains is that of any
kind of numbers. -/

/-- The community of each node, and the sum of the degrees in each community. -/
structure Assignment where
  community : Array Nat
  weight : Array Nat
deriving DecidableEq, Repr, Inhabited

namespace Assignment

/-- Every node is a community of its own. -/
def singletons (network : Network) : Assignment :=
  { community := Array.range network.size
    weight := ((List.range network.size).map network.degree).toArray }

def communityOf (assignment : Assignment) (node : Nat) : Nat :=
  assignment.community.getD node 0

def weightOf (assignment : Assignment) (community : Nat) : Nat :=
  assignment.weight.getD community 0

/-- Takes the degree of a node out of a community. -/
def release (assignment : Assignment) (community degree : Nat) : Assignment :=
  { assignment with
    weight := assignment.weight.setIfInBounds community (assignment.weightOf community - degree) }

/-- Puts a node that is in no community into one. -/
def join (assignment : Assignment) (node community degree : Nat) : Assignment :=
  { community := assignment.community.setIfInBounds node community
    weight := assignment.weight.setIfInBounds community (assignment.weightOf community + degree) }

end Assignment

/-- Adds to the weight of a community in a list that is sorted by the communities. -/
def addToSorted (community weight : Nat) : List (Nat × Nat) → List (Nat × Nat)
  | [] => [(community, weight)]
  | (other, known) :: rest =>
      if community = other then (other, known + weight) :: rest
      else if community < other then (community, weight) :: (other, known) :: rest
      else (other, known) :: addToSorted community weight rest

/-- The communities next to a node, with the weight of the links to each. -/
def adjoining (network : Network) (assignment : Assignment) (node : Nat) : List (Nat × Nat) :=
  ((network.neighbours node).filter fun entry => entry.1 != node).foldl
    (fun weights entry => addToSorted (assignment.communityOf entry.1) entry.2 weights) []

section

variable {α : Type} [Add α] [Sub α] [Mul α] [Div α] [NatCast α] [LT α] [DecidableLT α] [BEq α]

/-- What a node of the given degree is worth in a community: the weight of its links into it, less
the weight that is to be expected. -/
def worth (resolution : α) (total inside weight degree : Nat) : α :=
  (inside : α) - resolution * (weight : α) * (degree : α) / (total : α)

/-- The better of two communities by their gains; equal gains go to the smaller number. -/
def better (best candidate : Nat × α) : Nat × α :=
  if best.2 < candidate.2 || (candidate.2 == best.2 && decide (candidate.1 < best.1)) then
    candidate
  else best

/-- The community with the greatest gain for a node that has been released from its own, and that
gain.  To stay gains nothing. -/
def bestMove (resolution : α) (total : Nat) (assignment : Assignment)
    (adjoining : List (Nat × Nat)) (own degree : Nat) : Nat × α :=
  let inside := ((adjoining.find? fun entry => entry.1 == own).map Prod.snd).getD 0
  let loss := worth resolution total inside (assignment.weightOf own) degree
  let candidates := adjoining.map fun entry =>
    (entry.1, worth resolution total entry.2 (assignment.weightOf entry.1) degree - loss)
  candidates.foldl better (own, ((0 : Nat) : α))

/-- Where a released node goes: back to its own community unless something is gained. -/
def bestCommunity (resolution : α) (total : Nat) (assignment : Assignment)
    (adjoining : List (Nat × Nat)) (own degree : Nat) : Nat :=
  let best := bestMove resolution total assignment adjoining own degree
  if ((0 : Nat) : α) < best.2 then best.1 else own

/-- Moves one node, and tells whether it moved. -/
def visit (network : Network) (resolution : α) (total : Nat) (state : Assignment × Bool)
    (node : Nat) : Assignment × Bool :=
  let (assignment, moved) := state
  let own := assignment.communityOf node
  let degree := network.degree node
  let weights := adjoining network assignment node
  let released := assignment.release own degree
  let best := bestCommunity resolution total released weights own degree
  (released.join node best degree, moved || best != own)

/-- Visits all nodes in the given order, again and again until no node moves. -/
def settleUpTo (network : Network) (resolution : α) (total : Nat) (order : List Nat) :
    Nat → Assignment × Bool → Assignment × Bool
  | 0, state => state
  | rounds + 1, (assignment, moved) =>
      match order.foldl (visit network resolution total) (assignment, false) with
      | (assignment, true) =>
          settleUpTo network resolution total order rounds (assignment, true)
      | (assignment, false) => (assignment, moved)

/-- The number of rounds after which moving stops in any case. -/
def roundLimit : Nat := 100

/-- The communities after all moves, and whether there was any. -/
def settle (network : Network) (resolution : α) (total : Nat) (order : List Nat) :
    Assignment × Bool :=
  settleUpTo network resolution total order roundLimit (.singletons network, false)

end

end CodeGraph
