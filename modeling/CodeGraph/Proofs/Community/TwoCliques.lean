import CodeGraph.Proofs.Community.Cliques
import Mathlib.Data.List.Permutation

namespace CodeGraph

/-! The communities of two cliques.  Once each clique is one node, nothing moves any more. -/

/-! Nodes that are better off alone -/

section Apart

variable {network : Network} (hundirected : network.Undirected)

/-- No node is worth anything to another one. -/
def Network.IsApart (network : Network) : Prop :=
  ∀ node < network.size, ∀ other < network.size, other ≠ node →
    worth (1 : ℚ) network.total (network.linkTo node [other]) (network.groupDegree [other])
      (network.degree node) ≤ 0

theorem Assignment.others_of_alone {assignment : Assignment}
    (halone : assignment.community = (singletons network).community) {node other : Nat}
    (hother : other < network.size) :
    assignment.others node other = if other = node then [] else [other] := by
  have hmembers : assignment.members other = [other] := by
    rw [← members_singletons hother]
    simp only [members, communityOf, halone]
  rw [others, hmembers]
  by_cases hsame : other = node <;> simp [hsame]

include hundirected

theorem targetOf_of_isApart (hapart : network.IsApart) {assignment : Assignment}
    (htracks : Tracks network assignment)
    (halone : assignment.community = (Assignment.singletons network).community) (node : Nat) :
    targetOf network (1 : ℚ) network.total assignment node = assignment.communityOf node := by
  by_cases hlt : node < network.size
  · by_contra hmoves
    have hown : ∀ {place}, place < network.size → assignment.communityOf place = place := by
      intro place hplace
      rw [Assignment.communityOf, halone, ← Assignment.communityOf,
        Assignment.communityOf_singletons hplace]
    have hless := worthIn_lt_targetOf 1 hundirected htracks hlt hmoves
    have htarget := targetOf_lt hundirected.bounded htracks (1 : ℚ) network.total hlt
    rw [hown hlt] at hless hmoves
    rw [worthIn, worthIn, Assignment.others_of_alone halone hlt, if_pos rfl,
      Assignment.others_of_alone halone htarget, if_neg hmoves] at hless
    have hgain := hapart node hlt _ htarget hmoves
    have hnothing : worth (1 : ℚ) network.total (network.linkTo node []) (network.groupDegree [])
        (network.degree node) = 0 := by
      simp [worth, Network.linkTo_nil, Network.groupDegree]
    rw [hnothing] at hless
    exact absurd hless (not_lt.mpr hgain)
  · exact targetOf_of_size_le (Nat.le_of_not_lt hlt) _ _ _

theorem settle_of_isApart (hapart : network.IsApart) (order : List Nat) :
    (settle network (1 : ℚ) network.total order).2 = false := by
  have hround : ∀ assignment, Tracks network assignment →
      assignment.community = (Assignment.singletons network).community →
      (order.foldl (visit network (1 : ℚ) network.total) (assignment, false)).2 = false := by
    induction order with
    | nil => exact fun _ _ _ => rfl
    | cons node rest ih =>
        intro assignment htracks halone
        have hstay := targetOf_of_isApart hundirected hapart htracks halone node
        have hnext := htracks.visit hundirected.bounded (1 : ℚ) network.total false node
        rw [visit_eq_reassign, hstay] at hnext
        rw [List.foldl_cons, visit_eq_reassign, hstay, bne_self_eq_false, Bool.or_false]
        refine ih _ hnext ?_
        rw [Assignment.community_reassign_own, halone]
  have hfirst := hround _ (.singletons network) rfl
  rw [settle, show roundLimit = 99 + 1 from rfl, settleUpTo]
  split
  · next hmoved =>
      rw [hmoved] at hfirst
      cases hfirst
  · rfl

end Apart

/-! The second level -/

namespace Parted

variable {network : Network} {left right : Finset Nat} {a b : Nat} {assignment : Assignment}
variable (hcliques : network.TwoCliques left right a b)
variable (hparted : Parted network left right a b left right assignment)

include hparted

theorem communityOf_eq_iff {one other : Nat} (hone : one ∈ left) (hother : other < network.size) :
    assignment.communityOf one = assignment.communityOf other ↔ other ∈ left := by
  rw [hparted.left.together_iff one hone other (hparted.tracks.size_eq ▸ hother)]
  constructor
  · rintro (rfl | hboth)
    · exact hone
    · exact hboth.2
  · exact fun hin => .inr ⟨hone, hin⟩

theorem mem_members_iff {node other : Nat} (hnode : node ∈ left) :
    other ∈ assignment.members (assignment.communityOf node) ↔ other ∈ left := by
  rw [Assignment.mem_members, hparted.tracks.size_eq]
  constructor
  · rintro ⟨hlt, hsame⟩
    exact (hparted.communityOf_eq_iff hnode hlt).mp hsame.symm
  · intro hother
    have hlt := hparted.left.lt_size other hother
    rw [hparted.tracks.size_eq] at hlt
    exact ⟨hlt, ((hparted.communityOf_eq_iff hnode hlt).mpr hother).symm⟩

include hcliques

theorem labels_perm :
    assignment.labels.Perm [assignment.communityOf a, assignment.communityOf b] := by
  have ha := hcliques.first.port_mem
  have hb := hcliques.second.port_mem
  have hne : assignment.communityOf a ≠ assignment.communityOf b := by
    rw [Ne, hparted.communityOf_eq_iff ha (hcliques.second.lt_size b hb)]
    exact hcliques.first.far_notMem
  rw [List.perm_ext_iff_of_nodup assignment.nodup_labels (by simpa using hne)]
  intro label
  rw [Assignment.mem_labels, List.mem_pair]
  constructor
  · rintro ⟨node, hnode⟩
    obtain ⟨hlt, rfl⟩ := Assignment.mem_members.mp hnode
    rw [hparted.tracks.size_eq] at hlt
    rcases hcliques.mem_or_mem hlt with hin | hin
    · exact .inl ((hparted.communityOf_eq_iff ha hlt).mpr hin).symm
    · exact .inr ((hparted.symm.communityOf_eq_iff hb hlt).mpr hin).symm
  · rintro (rfl | rfl)
    · exact ⟨a, (hparted.mem_members_iff ha).mpr ha⟩
    · exact ⟨b, (hparted.symm.mem_members_iff hb).mpr hb⟩

theorem toFinset_block {place : Nat} (hplace : place < assignment.labels.length) :
    (assignment.block place).toFinset = left ∨ (assignment.block place).toFinset = right := by
  have hblock : assignment.block place = assignment.members assignment.labels[place] := by
    rw [Assignment.block, Assignment.blocks, List.getD_eq_getElem?_getD, List.getElem?_map,
      List.getElem?_eq_getElem hplace]
    rfl
  have hlabel := (hparted.labels_perm hcliques).mem_iff.mp (List.getElem_mem hplace)
  rw [hblock]
  rcases List.mem_pair.mp hlabel with hlabel | hlabel
  · left
    ext node
    rw [hlabel, List.mem_toFinset, hparted.mem_members_iff hcliques.first.port_mem]
  · right
    ext node
    rw [hlabel, List.mem_toFinset, hparted.symm.mem_members_iff hcliques.second.port_mem]

/-- Half of all weight is at the nodes of each clique. -/
theorem groupDegree_contract {place : Nat} (hplace : place < assignment.labels.length) :
    (assignment.contract network).groupDegree [place] = left.card * (left.card - 1) + 1 := by
  have hnodup := assignment.nodup_block place
  rw [Assignment.groupDegree_contract, List.flatMap_singleton]
  rcases hparted.toFinset_block hcliques hplace with hblock | hblock
  · rw [hcliques.first.groupDegree_eq hnodup hblock.subset, hblock,
      if_pos hcliques.first.port_mem]
  · rw [hcliques.second.groupDegree_eq hnodup hblock.subset, hblock,
      if_pos hcliques.second.port_mem, hcliques.card_eq]

theorem linkTo_contract_le {place other : Nat} (hplace : place < assignment.labels.length)
    (hne : other ≠ place) : (assignment.contract network).linkTo place [other] ≤ left.card := by
  have hdisjoint :
      Disjoint (assignment.block place).toFinset (assignment.block other).toFinset := by
    refine Finset.disjoint_left.mpr fun node hnode hother => hne ?_
    rw [List.mem_toFinset, Assignment.mem_block] at hnode hother
    exact hother.2.symm.trans hnode.2
  have hcard : (assignment.block place).length = left.card := by
    rw [← List.toFinset_card_of_nodup (assignment.nodup_block place)]
    rcases hparted.toFinset_block hcliques hplace with hblock | hblock
    · rw [hblock]
    · rw [hblock, hcliques.card_eq]
  have hlink : ∀ node ∈ assignment.block place,
      network.linkTo node (assignment.block other) ≤ 1 := by
    intro node hnode
    have hmem := List.mem_toFinset.mpr hnode
    have hnodup := assignment.nodup_block other
    rcases hparted.toFinset_block hcliques hplace with hblock | hblock
    · rw [hblock] at hmem hdisjoint
      exact hcliques.first.linkTo_le_one hmem hnodup hdisjoint
    · rw [hblock] at hmem hdisjoint
      exact hcliques.second.linkTo_le_one hmem hnodup hdisjoint
  rw [Assignment.linkTo_contract hparted.tracks.size_eq hcliques.undirected.bounded,
    List.flatMap_singleton, ← hcard, ← sumOf_map_one]
  exact sumOf_map_le hlink

omit hparted in
theorem two_mul_card_le : 2 * left.card ≤ left.card * (left.card - 1) + 1 := by
  have hthree := hcliques.first.three_le
  obtain ⟨size, hsize⟩ : ∃ size, left.card = size + 3 := ⟨left.card - 3, by omega⟩
  rw [hsize, show size + 3 - 1 = size + 2 from rfl]
  nlinarith

/-- A clique is worth nothing to the other one as a whole. -/
theorem isApart_contract : (assignment.contract network).IsApart := by
  intro place hplace other hother hne
  rw [Assignment.size_contract] at hplace hother
  have hdegree : (assignment.contract network).degree place = left.card * (left.card - 1) + 1 := by
    rw [← hparted.groupDegree_contract hcliques hplace]
    exact (Nat.add_zero _).symm
  rw [worth, Assignment.total_contract hparted.tracks.size_eq, hcliques.total_eq, hdegree,
    hparted.groupDegree_contract hcliques hother]
  have hlarge := two_mul_card_le hcliques
  have hlink := hparted.linkTo_contract_le hcliques hplace hne
  generalize left.card * (left.card - 1) + 1 = half at hlarge ⊢
  have hpositive : (0 : ℚ) < half := by
    have hthree := hcliques.first.three_le
    exact_mod_cast (by omega : 0 < half)
  have hsmall : (2 : ℚ) * (assignment.contract network).linkTo place [other] ≤ half := by
    exact_mod_cast (Nat.mul_le_mul_left 2 hlink).trans hlarge
  rw [one_mul, Nat.cast_mul, Nat.cast_two, mul_div_mul_right _ _ hpositive.ne']
  linarith

end Parted

/-! Clusters -/

section Clusters

variable {σ : Type} {draw : σ → Nat → List Nat × σ}

theorem mergeUpTo_of_isApart {network : Network} (hundirected : network.Undirected)
    (hapart : network.IsApart) (fuel : Nat) (source : σ) (groups : List (List Nat)) :
    mergeUpTo draw (1 : ℚ) network.total fuel source network groups = groups := by
  cases fuel with
  | zero => rfl
  | succ fuel =>
      have hstill := settle_of_isApart hundirected hapart (draw source network.size).1
      rw [mergeUpTo]
      split
      · rfl
      · dsimp only
        split
        · rfl
        · next hmoved =>
            rw [hmoved] at hstill
            cases hstill

variable {network : Network} {left right : Finset Nat} {a b : Nat}
variable (hcliques : network.TwoCliques left right a b)

include hcliques

theorem Network.TwoCliques.six_le : 6 ≤ network.size := by
  have hcount := Finset.card_union_of_disjoint hcliques.disjoint
  rw [hcliques.covers, Finset.card_range] at hcount
  have hleft := hcliques.first.three_le
  have hright := hcliques.second.three_le
  omega

variable (hdraw : ∀ source size, (draw source size).1.Perm (List.range size)) (source : σ)

include hdraw

/-- The search ends with the communities of the first level. -/
theorem Network.TwoCliques.clusters_eq :
    ∃ assignment, Parted network left right a b left right assignment ∧
      clusters draw source (1 : ℚ) network =
        assignment.merge (singletonGroups network.size) := by
  obtain ⟨assignment, hsettle, hparted⟩ := hcliques.settle_eq (hdraw source network.size)
  have hsix := hcliques.six_le
  have htotal : network.total ≠ 0 := by
    rw [hcliques.total_eq]
    omega
  have hfewer : assignment.labels.length ≠ network.size := by
    have hlength : assignment.labels.length = 2 := (hparted.labels_perm hcliques).length_eq
    omega
  have hsize := hparted.tracks.size_eq
  have hsecond : ∀ fuel later groups, mergeUpTo draw (1 : ℚ) network.total fuel later
      (assignment.contract network) groups = groups := by
    intro fuel later groups
    rw [← Assignment.total_contract hsize]
    exact mergeUpTo_of_isApart (Assignment.undirected_contract hsize hcliques.undirected)
      (hparted.isApart_contract hcliques) fuel later groups
  have hfirst : ∀ fuel groups, mergeUpTo draw (1 : ℚ) network.total (fuel + 1) source network
      groups = assignment.merge groups := by
    intro fuel groups
    rw [mergeUpTo, if_neg (by omega)]
    simp only [hsettle, if_neg hfewer, hsecond]
  obtain ⟨fuel, hfuel⟩ : ∃ fuel, network.size = fuel + 1 := ⟨network.size - 1, by omega⟩
  have hlevels := hfirst fuel (singletonGroups network.size)
  rw [← hfuel] at hlevels
  exact ⟨assignment, hparted, (if_neg htotal).trans hlevels⟩

theorem Network.TwoCliques.clusters_perm :
    ∃ first second, (clusters draw source (1 : ℚ) network).Perm [first, second] ∧
      (∀ node, node ∈ first ↔ node ∈ left) ∧ ∀ node, node ∈ second ↔ node ∈ right := by
  obtain ⟨assignment, hparted, hclusters⟩ := hcliques.clusters_eq hdraw source
  refine ⟨assignment.members (assignment.communityOf a),
    assignment.members (assignment.communityOf b), ?_,
    fun node => hparted.mem_members_iff hcliques.first.port_mem,
    fun node => hparted.symm.mem_members_iff hcliques.second.port_mem⟩
  have hnodes : ∀ block ∈ assignment.blocks,
      block.flatMap (fun node => (singletonGroups network.size).getD node []) = block := by
    intro block hblock
    obtain ⟨label, -, rfl⟩ := List.mem_map.mp hblock
    refine flatMap_singletonGroups fun node hnode => ?_
    rw [← hparted.tracks.size_eq]
    exact (Assignment.mem_members.mp hnode).1
  rw [hclusters, Assignment.merge_eq, List.map_congr_left hnodes, List.map_id']
  exact (hparted.labels_perm hcliques).map _

end Clusters

/-! Orders from a generator -/

theorem swap_order_perm (state : Shuffling) (index : Nat) :
    (state.swap index).order.toList.Perm state.order.toList := by
  rw [Shuffling.swap]
  dsimp only
  rw [Array.swapIfInBounds]
  split
  · split
    · exact Array.perm_iff_toList_perm.mp (Array.swap_perm _ _)
    · exact .refl _
  · exact .refl _

/-- Every seed gives orders that visit each node once. -/
theorem shuffle_perm (generator : Generator) (size : Nat) :
    (generator.shuffle size).1.Perm (List.range size) := by
  have hswaps : ∀ (indices : List Nat) (state : Shuffling),
      (indices.foldl Shuffling.swap state).order.toList.Perm state.order.toList := by
    intro indices
    induction indices with
    | nil => exact fun state => .refl _
    | cons index rest ih => exact fun state => (ih _).trans (swap_order_perm state index)
  rw [Generator.shuffle]
  split
  · exact .refl _
  · exact (hswaps _ _).trans (.of_eq (by simp))

/-- There are two communities, and they have the given members. -/
def Communities.Splits (communities : Communities) (left right : List String) : Prop :=
  ∃ one other, [one, other].Perm [0, 1] ∧ ∀ name number,
    communities.get? name = some number ↔
      name ∈ left ∧ number = one ∨ name ∈ right ∧ number = other

namespace Store

theorem mem_pair_at {first second : List String} {name : String} {number : Nat} :
    (∃ group, [first, second][number]? = some group ∧ name ∈ group) ↔
      name ∈ first ∧ number = 0 ∨ name ∈ second ∧ number = 1 := by
  match number with
  | 0 => simp
  | 1 => simp
  | number + 2 => simp

/-- Two lists of chunks of the same length.  Any two chunks of one list share one edge of unit
weight, in either direction, and so do the two ends of the bridge; there is nothing else between
chunks. -/
structure IsTwoCliques (store : Store) (left right : List String) (a b : String) : Prop where
  chunks : store.chunkIds.Perm (left ++ right)
  length_eq : left.length = right.length
  three_le : 3 ≤ left.length
  left_mem : a ∈ left
  right_mem : b ∈ right
  inside_left : ∀ one ∈ left, ∀ other ∈ left, one ≠ other →
    (store.edgesBetween one other).map Edge.weight = [1]
  inside_right : ∀ one ∈ right, ∀ other ∈ right, one ≠ other →
    (store.edgesBetween one other).map Edge.weight = [1]
  bridge : (store.edgesBetween a b).map Edge.weight = [1]
  apart : ∀ one ∈ left, ∀ other ∈ right, ¬(one = a ∧ other = b) →
    store.edgesBetween one other = []
  unshared : ∀ one ∈ store.chunkIds, ∀ other ∈ store.chunkIds, one ≠ other →
    store.sharedPhantoms one other = []

theorem IsTwoCliques.symm {store : Store} {left right : List String} {a b : String}
    (htwo : store.IsTwoCliques left right a b) : store.IsTwoCliques right left b a where
  chunks := htwo.chunks.trans List.perm_append_comm
  length_eq := htwo.length_eq.symm
  three_le := htwo.length_eq ▸ htwo.three_le
  left_mem := htwo.right_mem
  right_mem := htwo.left_mem
  inside_left := htwo.inside_right
  inside_right := htwo.inside_left
  bridge := by
    rw [edgesBetween_comm]
    exact htwo.bridge
  apart := by
    intro one hone other hother hne
    rw [edgesBetween_comm]
    exact htwo.apart other hother one hone fun hends => hne hends.symm
  unshared := htwo.unshared

/-! Nodes of the network -/

def networkPlaces (store : Store) (names : List String) : Finset Nat :=
  (names.map store.networkNames.idxOf).toFinset

theorem mem_networkPlaces {store : Store} (hsound : store.Sound) {names : List String} {node : Nat}
    (hlt : node < store.networkNames.length) :
    node ∈ store.networkPlaces names ↔ store.networkNames[node] ∈ names := by
  rw [networkPlaces, List.mem_toFinset, List.mem_map]
  constructor
  · rintro ⟨name, hname, rfl⟩
    rwa [List.getElem_idxOf]
  · intro hmem
    exact ⟨_, hmem, (nodup_networkNames hsound).idxOf_getElem node hlt⟩

namespace IsTwoCliques

variable {store : Store} (hsound : store.Sound) {left right : List String} {a b : String}
variable (htwo : store.IsTwoCliques left right a b)

include htwo

theorem mem_networkNames_iff {name : String} :
    name ∈ store.networkNames ↔ name ∈ left ∨ name ∈ right := by
  rw [networkNames, List.mem_mergeSort, htwo.chunks.mem_iff, List.mem_append]

theorem lt_of_mem_networkPlaces {node : Nat} (hnode : node ∈ store.networkPlaces left) :
    node < store.networkNames.length := by
  obtain ⟨name, hname, rfl⟩ := List.mem_map.mp (List.mem_toFinset.mp hnode)
  exact List.idxOf_lt_length_of_mem (htwo.mem_networkNames_iff.mpr (.inl hname))

include hsound

theorem nodup_append : (left ++ right).Nodup := by
  have hperm : store.networkNames.Perm (left ++ right) :=
    (List.mergeSort_perm _ _).trans htwo.chunks
  exact hperm.nodup_iff.mp (nodup_networkNames hsound)

theorem card_networkPlaces : (store.networkPlaces left).card = left.length := by
  have hnodup := (List.nodup_append.mp (htwo.nodup_append hsound)).1
  rw [networkPlaces, List.toFinset_card_of_nodup, List.length_map]
  refine hnodup.map_on fun one hone other _ hsame => ?_
  exact (List.idxOf_inj (htwo.mem_networkNames_iff.mpr (.inl hone))).mp hsame

theorem notMem_right {name : String} (hname : name ∈ left) : name ∉ right :=
  List.disjoint_of_nodup_append (htwo.nodup_append hsound) hname

/-- A chunk of the first clique is tied to the others of the clique, and over the bridge. -/
theorem tied_iff {one other : String} (hone : one ∈ left) (hother : other ∈ store.networkNames)
    (hne : one ≠ other) (weight : Nat) :
    (store.edgesBetween one other ≠ [] ∨ store.sharedPhantoms one other ≠ []) ∧
        weight = sumOf ((store.edgesBetween one other).map Edge.weight) +
          (store.sharedPhantoms one other).length ↔
      weight = 1 ∧ (other ∈ left ∨ one = a ∧ other = b) := by
  have hmem : one ∈ store.networkNames := htwo.mem_networkNames_iff.mpr (.inl hone)
  have hshared := htwo.unshared one (List.mem_mergeSort.mp hmem) other
    (List.mem_mergeSort.mp hother) hne
  have hunit : (store.edgesBetween one other).map Edge.weight = [1] →
      ((store.edgesBetween one other ≠ [] ∨ store.sharedPhantoms one other ≠ []) ∧
        weight = sumOf ((store.edgesBetween one other).map Edge.weight) +
          (store.sharedPhantoms one other).length ↔ weight = 1) := by
    intro hweights
    have hsome : store.edgesBetween one other ≠ [] := by
      intro hnone
      rw [hnone] at hweights
      cases hweights
    rw [hweights, hshared]
    exact and_iff_right (.inl hsome)
  rcases htwo.mem_networkNames_iff.mp hother with hin | hin
  · rw [hunit (htwo.inside_left one hone other hin hne), and_iff_left (.inl hin)]
  · have hout : other ∉ left := fun hleft => htwo.notMem_right hsound hleft hin
    rw [or_iff_right hout]
    by_cases hends : one = a ∧ other = b
    · obtain ⟨rfl, rfl⟩ := hends
      rw [hunit htwo.bridge, and_iff_left ⟨rfl, rfl⟩]
    · rw [htwo.apart one hone other hin hends, hshared]
      exact iff_of_false (fun hboth => hboth.1.elim (· rfl) (· rfl)) fun hboth => hends hboth.2

theorem isClique : store.network.IsClique (store.networkPlaces left) (store.networkNames.idxOf a)
    (store.networkNames.idxOf b) where
  lt_size := by
    intro node hnode
    rw [size_network]
    exact htwo.lt_of_mem_networkPlaces hnode
  port_mem := List.mem_toFinset.mpr (List.mem_map_of_mem htwo.left_mem)
  far_notMem := by
    have hb := htwo.mem_networkNames_iff.mpr (.inr htwo.right_mem)
    rw [mem_networkPlaces hsound (List.idxOf_lt_length_of_mem hb), List.getElem_idxOf]
    exact fun hleft => htwo.notMem_right hsound hleft htwo.right_mem
  three_le := by
    rw [htwo.card_networkPlaces hsound]
    exact htwo.three_le
  nodup := store.nodup_map_fst_neighbours
  mem_neighbours := by
    intro node hnode other weight
    have hlt := htwo.lt_of_mem_networkPlaces hnode
    have hleft := (mem_networkPlaces hsound hlt).mp hnode
    have hplace : ∀ {name : String}, name ∈ store.networkNames → ∀ {place : Nat}
        (hin : place < store.networkNames.length),
        place = store.networkNames.idxOf name ↔ store.networkNames[place] = name := by
      intro name hname place hin
      constructor
      · rintro rfl
        exact List.getElem_idxOf _
      · rintro rfl
        exact ((nodup_networkNames hsound).idxOf_getElem place hin).symm
    have ha := htwo.mem_networkNames_iff.mpr (.inl htwo.left_mem)
    have hb := htwo.mem_networkNames_iff.mpr (.inr htwo.right_mem)
    by_cases hother : other < store.networkNames.length
    · rw [hplace ha hlt, hplace hb hother, mem_networkPlaces hsound hother]
      refine (mem_neighbours_iff_tied hsound ⟨node, hlt⟩ ⟨other, hother⟩ weight).trans ?_
      by_cases hsame : node = other
      · subst hsame
        refine iff_of_false (fun htied => htied.1 rfl) ?_
        rintro ⟨-, ⟨-, hne⟩ | ⟨hone, hfar⟩⟩
        · exact hne rfl
        · exact htwo.notMem_right hsound hleft (hfar ▸ htwo.right_mem)
      · have hne : store.networkNames[node] ≠ store.networkNames[other] := fun heq =>
          hsame ((List.Nodup.getElem_inj_iff (nodup_networkNames hsound)).mp heq)
        rw [and_iff_left fun heq => hsame heq.symm]
        exact (and_iff_right fun heq => hsame (Fin.val_eq_of_eq heq)).trans
          (htwo.tied_iff hsound hleft (List.getElem_mem hother) hne weight)
    · refine iff_of_false (fun hmem => hother ?_) ?_
      · exact store.size_network ▸ store.bounded_network node _ hmem
      · rintro ⟨-, ⟨hin, -⟩ | ⟨-, rfl⟩⟩
        · exact hother (htwo.lt_of_mem_networkPlaces hin)
        · exact hother (List.idxOf_lt_length_of_mem hb)

theorem twoCliques_network :
    store.network.TwoCliques (store.networkPlaces left) (store.networkPlaces right)
      (store.networkNames.idxOf a) (store.networkNames.idxOf b) where
  undirected := undirected_network hsound
  first := htwo.isClique hsound
  second := htwo.symm.isClique hsound
  card_eq := by
    rw [htwo.card_networkPlaces hsound, htwo.symm.card_networkPlaces hsound, htwo.length_eq]
  disjoint := by
    refine Finset.disjoint_left.mpr fun node hleft hright => ?_
    have hlt := htwo.lt_of_mem_networkPlaces hleft
    rw [mem_networkPlaces hsound hlt] at hleft hright
    exact htwo.notMem_right hsound hleft hright
  covers := by
    ext node
    rw [Finset.mem_union, Finset.mem_range, size_network]
    constructor
    · rintro (hleft | hright)
      · exact htwo.lt_of_mem_networkPlaces hleft
      · exact htwo.symm.lt_of_mem_networkPlaces hright
    · intro hlt
      rw [mem_networkPlaces hsound hlt, mem_networkPlaces hsound hlt, ← htwo.mem_networkNames_iff]
      exact List.getElem_mem hlt

theorem mem_names_iff {nodes : List Nat}
    (hnodes : ∀ node, node ∈ nodes ↔ node ∈ store.networkPlaces left)
    (name : String) :
    name ∈ (nodes.map fun node => store.networkNames.getD node "").mergeSort ↔ name ∈ left := by
  rw [List.mem_mergeSort, List.mem_map]
  constructor
  · rintro ⟨node, hnode, rfl⟩
    rw [hnodes] at hnode
    have hlt := htwo.lt_of_mem_networkPlaces hnode
    rw [List.getD_eq_getElem _ _ hlt]
    exact (mem_networkPlaces hsound hlt).mp hnode
  · intro hname
    have hlt := List.idxOf_lt_length_of_mem (htwo.mem_networkNames_iff.mpr (.inl hname))
    refine ⟨store.networkNames.idxOf name, ?_, ?_⟩
    · rw [hnodes, mem_networkPlaces hsound hlt, List.getElem_idxOf]
      exact hname
    · rw [List.getD_eq_getElem _ _ hlt, List.getElem_idxOf]

theorem splits_communitiesBy {σ : Type} {draw : σ → Nat → List Nat × σ}
    (hdraw : ∀ source size, (draw source size).1.Perm (List.range size)) (source : σ) :
    (store.communitiesBy draw source (1 : ℚ)).Splits left right := by
  obtain ⟨first, second, hclusters, hfirst, hsecond⟩ :=
    (htwo.twoCliques_network hsound).clusters_perm hdraw source
  have hranked := ranked_namedGroups (nodup_networkNames hsound)
    (store.partition_clusters_network draw source (1 : ℚ))
  have hgroups := (List.mergeSort_perm _ fun one other : List String =>
    decide (one.headD "" ≤ other.headD "")).trans
      (hclusters.map fun group => (group.map fun node => store.networkNames.getD node "").mergeSort)
  have hleft := htwo.mem_names_iff hsound hfirst
  have hright := htwo.symm.mem_names_iff hsound hsecond
  rcases List.perm_pair.mp hgroups with hnamed | hnamed
  · refine ⟨0, 1, .refl _, fun name number => (get?_numbered hranked.nodup).trans ?_⟩
    rw [namedGroups, hnamed, mem_pair_at, hleft, hright]
  · refine ⟨1, 0, .swap _ _ _, fun name number => (get?_numbered hranked.nodup).trans ?_⟩
    rw [namedGroups, hnamed, mem_pair_at, hleft, hright, or_comm]

end IsTwoCliques

/-- In exact arithmetic and with resolution one, the communities of two cliques are the cliques, for
any visiting orders on each level and so for every seed. -/
theorem communities_of_two_cliques (history : List Mutation) {left right : List String}
    {a b : String} (htwo : (ofHistory history).IsTwoCliques left right a b) :
    let store := ofHistory history
    (∀ (σ : Type) (draw : σ → Nat → List Nat × σ) (source : σ),
      (∀ source size, (draw source size).1.Perm (List.range size)) →
        (store.communitiesBy draw source (1 : ℚ)).Splits left right) ∧
    ∀ seed, (store.communitiesBy Generator.shuffle (.ofSeed seed) (1 : ℚ)).Splits left right := by
  intro store
  have hsound : store.Sound := Sound.ofHistory history
  refine ⟨fun σ draw source hdraw => htwo.splits_communitiesBy hsound hdraw source, fun seed => ?_⟩
  exact htwo.splits_communitiesBy hsound shuffle_perm (.ofSeed seed)

/-- Two triangles whose names alternate, with a bridge between the first and the last of them. -/
def triangles : List Mutation :=
  ["a", "b", "c", "d", "e", "f"].map sampleChunk ++
    [sampleCall "a" "c", sampleCall "e" "c", sampleCall "e" "a", sampleCall "b" "d",
      sampleCall "d" "f", sampleCall "b" "f", sampleCall "f" "a"]

theorem communities_of_two_cliques_triangles :
    (ofHistory triangles).IsTwoCliques ["a", "c", "e"] ["b", "d", "f"] "a" "f" ∧
      ∀ seed, ((ofHistory triangles).communitiesBy Generator.shuffle (.ofSeed seed)
        (1 : ℚ)).Splits ["a", "c", "e"] ["b", "d", "f"] := by
  have htwo : (ofHistory triangles).IsTwoCliques ["a", "c", "e"] ["b", "d", "f"] "a" "f" :=
    { chunks := by decide
      length_eq := rfl
      three_le := by decide
      left_mem := by decide
      right_mem := by decide
      inside_left := by decide
      inside_right := by decide
      bridge := by decide
      apart := by decide
      unshared := by decide }
  exact ⟨htwo, (communities_of_two_cliques triangles htwo).2⟩

end Store

end CodeGraph
