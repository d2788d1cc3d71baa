import CodeGraph.Proofs.Community.Links
import CodeGraph.Proofs.Graph.Symbols

namespace CodeGraph

/-! Contraction keeps all weights.  A group of communities weighs in the contracted network what its
nodes weigh in the network before, and so on down to the first network. -/

namespace Assignment

/-- The members of the communities, in the order of the labels. -/
def blocks (assignment : Assignment) : List (List Nat) :=
  assignment.labels.map assignment.members

def block (assignment : Assignment) (place : Nat) : List Nat :=
  assignment.blocks.getD place []

def placeOf (assignment : Assignment) (node : Nat) : Nat :=
  assignment.labels.idxOf (assignment.communityOf node)

theorem length_blocks (assignment : Assignment) :
    assignment.blocks.length = assignment.labels.length :=
  List.length_map _

theorem mem_block {assignment : Assignment} {place node : Nat} :
    node ∈ assignment.block place ↔
      node < assignment.community.size ∧ assignment.placeOf node = place := by
  rw [block, blocks, List.getD_eq_getElem?_getD, List.getElem?_map, placeOf]
  by_cases hplace : place < assignment.labels.length
  · rw [List.getElem?_eq_getElem hplace]
    refine mem_members.trans (and_congr_right fun _ => ?_)
    constructor
    · intro hlabel
      rw [hlabel]
      exact assignment.nodup_labels.idxOf_getElem place hplace
    · rintro rfl
      exact (List.getElem_idxOf hplace).symm
  · rw [List.getElem?_eq_none (Nat.le_of_not_lt hplace)]
    refine iff_of_false (by simp) ?_
    rintro ⟨hlt, rfl⟩
    exact hplace (List.idxOf_lt_length_of_mem (communityOf_mem_labels hlt))

theorem nodup_block (assignment : Assignment) (place : Nat) :
    (assignment.block place).Nodup := by
  rw [block, blocks, List.getD_eq_getElem?_getD, List.getElem?_map]
  cases assignment.labels[place]? with
  | none => exact List.nodup_nil
  | some label => exact assignment.nodup_members label

theorem flatMap_block_perm (assignment : Assignment) :
    ((List.range assignment.labels.length).flatMap assignment.block).Perm
      (List.range assignment.community.size) := by
  have hblocks : (List.range assignment.labels.length).map assignment.block =
      assignment.blocks := by
    rw [← length_blocks]
    exact map_getD_range _ _
  rw [List.flatMap_def, hblocks, blocks, ← List.flatMap_def]
  exact assignment.flatMap_members_perm

theorem partition_blocks (assignment : Assignment) :
    Partition assignment.blocks assignment.community.size where
  perm := by
    rw [blocks, ← List.flatMap_def]
    exact assignment.flatMap_members_perm
  nonempty := by
    intro hmem
    obtain ⟨label, hlabel, hempty⟩ := List.mem_map.mp hmem
    obtain ⟨node, hnode⟩ := mem_labels.mp hlabel
    rw [hempty] at hnode
    cases hnode

/-! The contracted network -/

section Contract

variable {assignment : Assignment} {network : Network}

theorem neighbours_contract (place : Nat) :
    (assignment.contract network).neighbours place =
      gather (((assignment.block place).flatMap network.neighbours).map fun entry =>
        (assignment.placeOf entry.1, entry.2)) := by
  rw [contract, Network.neighbours_toArray, List.getElem?_map, block, blocks,
    List.getD_eq_getElem?_getD, List.getElem?_map, gather, List.foldl_map]
  cases assignment.labels[place]? <;> rfl

theorem weightOn_contract (place : Nat) (wanted : Nat → Bool) :
    weightOn ((assignment.contract network).neighbours place) wanted =
      sumOf ((assignment.block place).map fun node =>
        weightOn (network.neighbours node) fun other => wanted (assignment.placeOf other)) := by
  rw [neighbours_contract, weightOn_gather, weightOn_map assignment.placeOf, weightOn_flatMap]

theorem groupDegree_contract (places : List Nat) :
    (assignment.contract network).groupDegree places =
      network.groupDegree (places.flatMap assignment.block) := by
  rw [Network.groupDegree, Network.groupDegree, sumOf_flatMap]
  refine congrArg sumOf (List.map_congr_left fun place _ => ?_)
  rw [Network.degree_eq_weightOn, weightOn_contract]
  exact congrArg sumOf (List.map_congr_left fun node _ => (network.degree_eq_weightOn node).symm)

variable (hsize : assignment.community.size = network.size)

include hsize

theorem linkTo_contract (hbounded : network.Bounded) (place : Nat) (places : List Nat) :
    (assignment.contract network).linkTo place places =
      sumOf ((assignment.block place).map fun node =>
        network.linkTo node (places.flatMap assignment.block)) := by
  rw [Network.linkTo, weightOn_contract]
  refine congrArg sumOf (List.map_congr_left fun node _ => ?_)
  refine weightOn_congr fun entry hentry => ?_
  have hlt : entry.1 < assignment.community.size := hsize ▸ hbounded node entry hentry
  simp [mem_block, hlt]

theorem groupInside_contract (hbounded : network.Bounded) (places : List Nat) :
    (assignment.contract network).groupInside places =
      network.groupInside (places.flatMap assignment.block) := by
  rw [Network.groupInside_eq, Network.groupInside_eq, sumOf_flatMap]
  simp only [linkTo_contract hsize hbounded]

theorem total_contract : (assignment.contract network).total = network.total := by
  have htotal : ∀ network : Network, network.total =
      network.groupDegree (List.range network.size) := fun _ => rfl
  rw [htotal, htotal, groupDegree_contract, size_contract, ← hsize]
  exact network.groupDegree_perm assignment.flatMap_block_perm

theorem between_contract (hbounded : network.Bounded) (one other : Nat) :
    (assignment.contract network).between one other =
      sumOf ((assignment.block one).map fun node =>
        sumOf ((assignment.block other).map (network.between node))) := by
  have hlink := linkTo_contract hsize hbounded one [other]
  rw [Network.linkTo_cons _ _ List.not_mem_nil, Network.linkTo_nil, List.flatMap_singleton]
    at hlink
  rw [← Nat.add_zero ((assignment.contract network).between one other), hlink]
  simp only [Network.linkTo_eq_sumOf network _ (assignment.nodup_block other)]

theorem bounded_contract (hbounded : network.Bounded) : (assignment.contract network).Bounded := by
  intro place entry hentry
  rw [neighbours_contract] at hentry
  have hkey := mem_map_fst_gather.mp (List.mem_map_of_mem (f := Prod.fst) hentry)
  simp only [List.map_map, List.mem_map, List.mem_flatMap] at hkey
  obtain ⟨found, ⟨node, -, hfound⟩, hplace⟩ := hkey
  have hlt := hbounded node found hfound
  rw [size_contract, ← hplace]
  exact List.idxOf_lt_length_of_mem (communityOf_mem_labels (hsize ▸ hlt))

theorem undirected_contract (hundirected : network.Undirected) :
    (assignment.contract network).Undirected where
  bounded := bounded_contract hsize hundirected.bounded
  symm := by
    intro one other _ _
    rw [between_contract hsize hundirected.bounded, between_contract hsize hundirected.bounded,
      sumOf_comm]
    simp only [hundirected.between_comm]

end Contract

/-! Merged groups -/

theorem merge_eq (assignment : Assignment) (groups : List (List Nat)) :
    assignment.merge groups =
      assignment.blocks.map fun nodes => nodes.flatMap fun node => groups.getD node [] := by
  rw [merge, blocks, List.map_map]
  rfl

theorem getD_merge (assignment : Assignment) (groups : List (List Nat)) (place : Nat) :
    (assignment.merge groups).getD place [] =
      (assignment.block place).flatMap fun node => groups.getD node [] := by
  rw [merge_eq, block, List.getD_eq_getElem?_getD, List.getElem?_map, List.getD_eq_getElem?_getD]
  cases assignment.blocks[place]? <;> rfl

theorem size_community_singletons (network : Network) :
    (singletons network).community.size = network.size :=
  Array.size_range

theorem communityOf_singletons {network : Network} {node : Nat} (hlt : node < network.size) :
    (singletons network).communityOf node = node := by
  simp [singletons, communityOf, hlt]

theorem members_singletons {network : Network} {node : Nat} (hlt : node < network.size) :
    (singletons network).members node = [node] := by
  refine List.perm_singleton.mp ?_
  rw [List.perm_ext_iff_of_nodup (nodup_members _ _) (List.nodup_singleton node)]
  intro other
  rw [mem_members, List.mem_singleton, size_community_singletons]
  constructor
  · rintro ⟨hother, hsame⟩
    rwa [communityOf_singletons hother] at hsame
  · rintro rfl
    exact ⟨hlt, communityOf_singletons hlt⟩

theorem blocks_singletons (network : Network) :
    (singletons network).blocks = singletonGroups network.size := by
  have hlabels : (singletons network).labels = List.range network.size := by
    rw [labels, singletons, Array.toList_range]
    exact eraseDups_of_nodup List.nodup_range
  rw [blocks, hlabels, singletonGroups]
  refine List.map_congr_left fun node hnode => ?_
  exact members_singletons (List.mem_range.mp hnode)

theorem merge_singletons {network : Network} {groups : List (List Nat)}
    (hlength : groups.length = network.size) : (singletons network).merge groups = groups := by
  rw [merge_eq, blocks_singletons, singletonGroups, List.map_map, ← hlength]
  simp only [Function.comp_def, List.flatMap_singleton]
  exact map_getD_range _ _

end Assignment

/-- A network whose nodes stand for groups of nodes of the original one, with the same weights. -/
structure Level (original network : Network) (groups : List (List Nat)) : Prop where
  undirected : network.Undirected
  partition : Partition groups original.size
  length_eq : groups.length = network.size
  total_eq : network.total = original.total
  degree_eq : ∀ nodes, (∀ node ∈ nodes, node < network.size) → network.groupDegree nodes =
    original.groupDegree (nodes.flatMap fun node => groups.getD node [])
  inside_eq : ∀ nodes, (∀ node ∈ nodes, node < network.size) → network.groupInside nodes =
    original.groupInside (nodes.flatMap fun node => groups.getD node [])

theorem flatMap_singletonGroups {size : Nat} {nodes : List Nat}
    (hnodes : ∀ node ∈ nodes, node < size) :
    nodes.flatMap (fun node => (singletonGroups size).getD node []) = nodes := by
  have hsingle : ∀ node ∈ nodes, (singletonGroups size).getD node [] = [node] := by
    intro node hnode
    simp [singletonGroups, hnodes node hnode]
  rw [List.flatMap_congr hsingle, List.flatMap_singleton']

namespace Level

theorem ofSingletons {network : Network} (hundirected : network.Undirected) :
    Level network network (singletonGroups network.size) where
  undirected := hundirected
  partition := partition_singletonGroups _
  length_eq := length_singletonGroups _
  total_eq := rfl
  degree_eq := fun nodes hnodes => by rw [flatMap_singletonGroups hnodes]
  inside_eq := fun nodes hnodes => by rw [flatMap_singletonGroups hnodes]

variable {original network : Network} {groups : List (List Nat)}
variable (hlevel : Level original network groups)
variable {assignment : Assignment} (hsize : assignment.community.size = network.size)

include hlevel hsize

theorem contract : Level original (assignment.contract network) (assignment.merge groups) := by
  have hnodes : ∀ places : List Nat, ∀ node ∈ places.flatMap assignment.block,
      node < network.size := by
    intro places node hnode
    obtain ⟨place, -, hmem⟩ := List.mem_flatMap.mp hnode
    exact hsize ▸ (Assignment.mem_block.mp hmem).1
  have hgroups : ∀ places : List Nat,
      places.flatMap (fun place => (assignment.merge groups).getD place []) =
        (places.flatMap assignment.block).flatMap fun node => groups.getD node [] := by
    intro places
    simp only [Assignment.getD_merge, List.flatMap_assoc]
  exact {
    undirected := Assignment.undirected_contract hsize hlevel.undirected
    partition := hlevel.partition.merge (hlevel.length_eq.trans hsize.symm)
    length_eq := by rw [Assignment.length_merge, Assignment.size_contract]
    total_eq := (Assignment.total_contract hsize).trans hlevel.total_eq
    degree_eq := fun places _ => by
      rw [Assignment.groupDegree_contract, hlevel.degree_eq _ (hnodes places), hgroups]
    inside_eq := fun places _ => by
      rw [Assignment.groupInside_contract hsize hlevel.undirected.bounded,
        hlevel.inside_eq _ (hnodes places), hgroups] }

/-- The modularity of merged groups can be found from the communities alone. -/
theorem modularity_merge {α : Type} [Add α] [Sub α] [Mul α] [Div α] [NatCast α]
    (resolution : α) :
    original.modularity resolution (assignment.merge groups) =
      network.modularity resolution assignment.blocks := by
  have hblock : ∀ nodes ∈ assignment.blocks,
      original.groupModularity resolution (nodes.flatMap fun node => groups.getD node []) =
        network.groupModularity resolution nodes := by
    intro nodes hnodes
    obtain ⟨label, -, rfl⟩ := List.mem_map.mp hnodes
    have hlt : ∀ node ∈ assignment.members label, node < network.size :=
      fun node hnode => hsize ▸ (Assignment.mem_members.mp hnode).1
    simp only [Network.groupModularity, hlevel.total_eq, hlevel.degree_eq _ hlt,
      hlevel.inside_eq _ hlt]
  rw [Network.modularity, Network.modularity, hlevel.total_eq, Assignment.merge_eq, List.map_map,
    Function.comp_def, List.map_congr_left hblock]

end Level

end CodeGraph
