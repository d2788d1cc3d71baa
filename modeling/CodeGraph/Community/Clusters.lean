import CodeGraph.Community.Moves

namespace CodeGraph

/-! Communities of communities: settled communities become the nodes of a smaller network, until
nothing moves any more. -/

namespace Assignment

/-- The communities in the order of their first nodes. -/
def labels (assignment : Assignment) : List Nat :=
  assignment.community.toList.eraseDups

def members (assignment : Assignment) (label : Nat) : List Nat :=
  (List.range assignment.community.size).filter fun node => assignment.communityOf node == label

/-- The network of the communities.  What was inside of a community is now a link to itself. -/
def contract (assignment : Assignment) (network : Network) : Network :=
  let labels := assignment.labels
  (labels.map fun label =>
    ((assignment.members label).flatMap network.neighbours).foldl
      (fun neighbours entry =>
        addWeight (labels.idxOf (assignment.communityOf entry.1)) entry.2 neighbours)
      []).toArray

def merge (assignment : Assignment) (groups : List (List Nat)) : List (List Nat) :=
  assignment.labels.map fun label =>
    (assignment.members label).flatMap fun node => groups.getD node []

end Assignment

section

variable {α σ : Type}
variable [Add α] [Sub α] [Mul α] [Div α] [NatCast α] [LT α] [DecidableLT α] [BEq α]

/-- Merges groups level by level.  `draw` gives the order of visits for a number of nodes. -/
def mergeUpTo (draw : σ → Nat → List Nat × σ) (resolution : α) (total : Nat) :
    Nat → σ → Network → List (List Nat) → List (List Nat)
  | 0, _, _, groups => groups
  | fuel + 1, source, network, groups =>
      if network.size < 2 then groups
      else
        let (order, source) := draw source network.size
        match settle network resolution total order with
        | (_, false) => groups
        | (assignment, true) =>
            if assignment.labels.length = network.size then groups
            else
              mergeUpTo draw resolution total fuel source (assignment.contract network)
                (assignment.merge groups)

def singletonGroups (size : Nat) : List (List Nat) :=
  (List.range size).map fun node => [node]

/-- The nodes of a network in groups of dense links.  Each level has fewer nodes than the one
before, so that the number of nodes bounds the levels. -/
def clusters (draw : σ → Nat → List Nat × σ) (source : σ) (resolution : α) (network : Network) :
    List (List Nat) :=
  if network.total = 0 then singletonGroups network.size
  else
    mergeUpTo draw resolution network.total network.size source network
      (singletonGroups network.size)

/-! Modularity -/

namespace Network

def groupDegree (network : Network) (group : List Nat) : Nat :=
  sumOf (group.map network.degree)

/-- The weight of links inside of a group, each counted at both of its ends. -/
def groupInside (network : Network) (group : List Nat) : Nat :=
  sumOf (group.map fun node =>
    sumOf (((network.neighbours node).filter fun entry => group.contains entry.1).map Prod.snd))

/-- What a group adds to the modularity: its share of the links, less the share to be expected. -/
def groupModularity (network : Network) (resolution : α) (group : List Nat) : α :=
  let share := (network.groupDegree group : α) / (network.total : α)
  (network.groupInside group : α) / (network.total : α) - resolution * (share * share)

def modularity (network : Network) (resolution : α) (groups : List (List Nat)) : α :=
  if network.total = 0 then ((0 : Nat) : α)
  else (groups.map (network.groupModularity resolution)).foldl (· + ·) ((0 : Nat) : α)

end Network

end

end CodeGraph
