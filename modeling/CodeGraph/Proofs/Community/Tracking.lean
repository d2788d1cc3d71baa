import CodeGraph.Proofs.Community.Contraction

namespace CodeGraph

/-! The weights that moves are decided on.  The running sums of an assignment are the degrees of the
members of each community, and a released node is measured against the members that are left. -/

/-! Communities next to a node -/

theorem weightOn_addToSorted (community weight : Nat) (weights : List (Nat × Nat))
    (wanted : Nat → Bool) :
    weightOn (addToSorted community weight weights) wanted =
      weightOn weights wanted + if wanted community then weight else 0 := by
  induction weights with
  | nil => rw [addToSorted, weightOn_cons, weightOn_nil, Nat.add_comm]
  | cons known rest ih =>
      rw [addToSorted]
      split
      · next hsame =>
          rw [weightOn_cons, weightOn_cons, hsame]
          split <;> omega
      · split
        · rw [weightOn_cons, Nat.add_comm]
        · rw [weightOn_cons, weightOn_cons, ih, Nat.add_assoc]

theorem mem_map_fst_addToSorted {community weight key : Nat} {weights : List (Nat × Nat)} :
    key ∈ (addToSorted community weight weights).map Prod.fst ↔
      key = community ∨ key ∈ weights.map Prod.fst := by
  induction weights with
  | nil => simp [addToSorted]
  | cons known rest ih =>
      rw [addToSorted]
      split
      · next hsame => simp [hsame]
      · split
        · simp
        · rw [List.map_cons, List.mem_cons, ih, List.map_cons, List.mem_cons]
          exact or_left_comm

theorem sorted_addToSorted (community weight : Nat) {weights : List (Nat × Nat)}
    (hsorted : (weights.map Prod.fst).Pairwise (· < ·)) :
    ((addToSorted community weight weights).map Prod.fst).Pairwise (· < ·) := by
  induction weights with
  | nil => exact List.pairwise_singleton _ _
  | cons known rest ih =>
      rw [List.map_cons, List.pairwise_cons] at hsorted
      rw [addToSorted]
      split
      · exact List.pairwise_cons.mpr hsorted
      · next hne =>
          split
          · next hlt =>
              refine List.pairwise_cons.mpr ⟨?_, List.pairwise_cons.mpr hsorted⟩
              intro key hkey
              rcases List.mem_cons.mp hkey with rfl | hrest
              · exact hlt
              · exact Nat.lt_trans hlt (hsorted.1 key hrest)
          · next hnot =>
              refine List.pairwise_cons.mpr ⟨?_, ih hsorted.2⟩
              intro key hkey
              rcases mem_map_fst_addToSorted.mp hkey with rfl | hrest
              · omega
              · exact hsorted.1 key hrest

section Adjoining

variable (network : Network) (assignment : Assignment) (node : Nat)

theorem adjoining_induction (keeps : List (Nat × Nat) → List (Nat × Nat) → Prop)
    (hnil : keeps [] [])
    (hadd : ∀ entries entry weights, keeps entries weights →
      keeps (entries ++ [entry])
        (addToSorted (assignment.communityOf entry.1) entry.2 weights)) :
    keeps ((network.neighbours node).filter fun entry => entry.1 != node)
      (adjoining network assignment node) := by
  rw [adjoining]
  generalize (network.neighbours node).filter _ = entries
  induction entries using List.reverseRecOn with
  | nil => exact hnil
  | append_singleton entries entry ih =>
      rw [List.foldl_append]
      exact hadd entries entry _ ih

theorem nodup_adjoining : ((adjoining network assignment node).map Prod.fst).Nodup := by
  have hsorted : ((adjoining network assignment node).map Prod.fst).Pairwise (· < ·) := by
    apply adjoining_induction network assignment node
      fun _ weights => (weights.map Prod.fst).Pairwise (· < ·)
    · exact List.Pairwise.nil
    · intro entries entry weights ih
      exact sorted_addToSorted _ _ ih
  exact hsorted.imp Nat.ne_of_lt

theorem weightOn_adjoining (wanted : Nat → Bool) :
    weightOn (adjoining network assignment node) wanted =
      weightOn ((network.neighbours node).filter fun entry => entry.1 != node)
        fun other => wanted (assignment.communityOf other) := by
  apply adjoining_induction network assignment node fun entries weights =>
    weightOn weights wanted = weightOn entries fun other => wanted (assignment.communityOf other)
  · rfl
  · intro entries entry weights ih
    rw [weightOn_addToSorted, ih, weightOn_append, weightOn_cons, weightOn_nil, Nat.add_zero]

theorem mem_map_fst_adjoining {key : Nat}
    (hmem : key ∈ (adjoining network assignment node).map Prod.fst) :
    ∃ entry ∈ network.neighbours node, assignment.communityOf entry.1 = key := by
  have hentry : ∃ entry ∈ (network.neighbours node).filter (fun entry => entry.1 != node),
      assignment.communityOf entry.1 = key := by
    revert hmem
    apply adjoining_induction network assignment node fun entries weights =>
      key ∈ weights.map Prod.fst → ∃ entry ∈ entries, assignment.communityOf entry.1 = key
    · simp
    · intro entries entry weights ih hkey
      rcases mem_map_fst_addToSorted.mp hkey with rfl | hold
      · exact ⟨entry, by simp, rfl⟩
      · obtain ⟨found, hfound, hsame⟩ := ih hold
        exact ⟨found, List.mem_append_left _ hfound, hsame⟩
  obtain ⟨entry, hfiltered, hkey⟩ := hentry
  exact ⟨entry, (List.mem_filter.mp hfiltered).1, hkey⟩

/-- The communities of all neighbours are next to a node. -/
theorem communityOf_mem_adjoining {entry : Nat × Nat} (hentry : entry ∈ network.neighbours node)
    (hne : entry.1 ≠ node) :
    assignment.communityOf entry.1 ∈ (adjoining network assignment node).map Prod.fst := by
  have hall : ∀ entry ∈ (network.neighbours node).filter (fun entry => entry.1 != node),
      assignment.communityOf entry.1 ∈ (adjoining network assignment node).map Prod.fst := by
    apply adjoining_induction network assignment node fun entries weights =>
      ∀ entry ∈ entries, assignment.communityOf entry.1 ∈ weights.map Prod.fst
    · simp
    · intro entries added weights ih entry hmem
      rw [mem_map_fst_addToSorted]
      rcases List.mem_append.mp hmem with hold | hnew
      · exact .inr (ih entry hold)
      · rw [List.mem_singleton.mp hnew]
        exact .inl rfl
  exact hall entry (List.mem_filter.mpr ⟨hentry, by simpa using hne⟩)

end Adjoining

theorem find?_eq_weightTo {weights : List (Nat × Nat)} (hnodup : (weights.map Prod.fst).Nodup)
    (key : Nat) :
    ((weights.find? fun entry => entry.1 == key).map Prod.snd).getD 0 = weightTo weights key := by
  cases hfind : weights.find? fun entry => entry.1 == key with
  | none =>
      have hnone : weights.filter (fun entry => entry.1 == key) = [] :=
        List.filter_eq_nil_iff.mpr (List.find?_eq_none.mp hfind)
      rw [weightTo, weightOn, hnone]
      rfl
  | some entry =>
      have hkey : entry.1 = key := by simpa using List.find?_some hfind
      rw [← hkey, weightTo_of_nodup hnodup (List.mem_of_find?_eq_some hfind)]
      rfl

/-! Members of a community besides a node -/

namespace Assignment

def others (assignment : Assignment) (node community : Nat) : List Nat :=
  (assignment.members community).filter (· != node)

theorem mem_others {assignment : Assignment} {node community other : Nat} :
    other ∈ assignment.others node community ↔
      (other < assignment.community.size ∧ assignment.communityOf other = community) ∧
        other ≠ node := by
  rw [others, List.mem_filter, mem_members, bne_iff_ne]

theorem nodup_cons_others (assignment : Assignment) (node community : Nat) :
    (node :: assignment.others node community).Nodup :=
  List.nodup_cons.mpr ⟨fun hmem => (mem_others.mp hmem).2 rfl,
    (assignment.nodup_members community).filter _⟩

theorem members_perm {assignment : Assignment} {node : Nat}
    (hlt : node < assignment.community.size) (community : Nat) :
    (assignment.members community).Perm
      (if assignment.communityOf node = community then node :: assignment.others node community
        else assignment.others node community) := by
  have hnodup := assignment.nodup_cons_others node community
  split
  · next hown =>
      rw [List.perm_ext_iff_of_nodup (assignment.nodup_members community) hnodup]
      intro other
      rw [List.mem_cons, mem_others, mem_members]
      grind
  · next hother =>
      rw [List.perm_ext_iff_of_nodup (assignment.nodup_members community) hnodup.of_cons]
      intro other
      rw [mem_others, mem_members]
      grind

end Assignment

theorem weightTo_adjoining {network : Network} {assignment : Assignment}
    (hbounded : network.Bounded) (hsize : assignment.community.size = network.size)
    (node community : Nat) :
    weightTo (adjoining network assignment node) community =
      network.linkTo node (assignment.others node community) := by
  rw [weightTo, weightOn_adjoining, weightOn, Network.linkTo, weightOn, List.filter_filter]
  congr 2
  refine List.filter_congr fun entry hentry => ?_
  have hlt : entry.1 < assignment.community.size := hsize ▸ hbounded node entry hentry
  rw [Bool.eq_iff_iff, List.contains_iff_mem, Assignment.mem_others]
  simp [hlt]

/-! Running sums -/

theorem getD_setIfInBounds {items : Array Nat} {place : Nat} (hlt : place < items.size)
    (value index : Nat) :
    (items.setIfInBounds place value).getD index 0 =
      if place = index then value else items.getD index 0 := by
  rw [Array.getD_eq_getD_getElem?, Array.getElem?_setIfInBounds, Array.getD_eq_getD_getElem?]
  split
  · rfl
  · rfl

theorem setIfInBounds_getD (items : Array Nat) (place : Nat) :
    items.setIfInBounds place (items.getD place 0) = items := by
  apply Array.ext
  · exact Array.size_setIfInBounds
  · intro index hindex hin
    rw [Array.getElem_setIfInBounds hin]
    split
    · next hsame =>
        subst hsame
        simp [hin]
    · rfl

/-- The sums that an assignment keeps are the degrees of the members. -/
structure Tracks (network : Network) (assignment : Assignment) : Prop where
  size_eq : assignment.community.size = network.size
  weight_size : assignment.weight.size = network.size
  communityOf_lt : ∀ node < network.size, assignment.communityOf node < network.size
  weightOf_eq : ∀ community,
    assignment.weightOf community = network.groupDegree (assignment.members community)

namespace Assignment

/-- Moves a node to a community. -/
def reassign (network : Network) (assignment : Assignment) (node community : Nat) : Assignment :=
  (assignment.release (assignment.communityOf node) (network.degree node)).join node community
    (network.degree node)

theorem communityOf_reassign {network : Network} {assignment : Assignment} {node : Nat}
    (hlt : node < assignment.community.size) (community other : Nat) :
    (assignment.reassign network node community).communityOf other =
      if node = other then community else assignment.communityOf other :=
  getD_setIfInBounds hlt community other

theorem size_community_reassign (network : Network) (assignment : Assignment)
    (node community : Nat) :
    (assignment.reassign network node community).community.size = assignment.community.size :=
  Array.size_setIfInBounds

theorem community_reassign_own (network : Network) (assignment : Assignment) (node : Nat) :
    (assignment.reassign network node (assignment.communityOf node)).community =
      assignment.community :=
  setIfInBounds_getD _ _

theorem others_reassign {network : Network} {assignment : Assignment} {node : Nat}
    (hlt : node < assignment.community.size) (target community : Nat) :
    (assignment.reassign network node target).others node community =
      assignment.others node community := by
  rw [others, others, members, members, List.filter_filter, List.filter_filter,
    size_community_reassign]
  refine List.filter_congr fun other _ => ?_
  rw [communityOf_reassign hlt]
  by_cases hsame : node = other <;> simp [hsame]

end Assignment

namespace Tracks

theorem singletons (network : Network) : Tracks network (.singletons network) where
  size_eq := Assignment.size_community_singletons network
  weight_size := by simp [Assignment.singletons]
  communityOf_lt := by
    intro node hlt
    rwa [Assignment.communityOf_singletons hlt]
  weightOf_eq := by
    intro community
    by_cases hlt : community < network.size
    · rw [Assignment.members_singletons hlt]
      simp [Assignment.singletons, Assignment.weightOf, Network.groupDegree, hlt]
    · have hnone : (Assignment.singletons network).members community = [] := by
        rw [List.eq_nil_iff_forall_not_mem]
        intro node hmem
        obtain ⟨hnode, hsame⟩ := Assignment.mem_members.mp hmem
        rw [Assignment.size_community_singletons] at hnode
        rw [Assignment.communityOf_singletons hnode] at hsame
        exact hlt (hsame ▸ hnode)
      rw [hnone]
      simp [Assignment.singletons, Assignment.weightOf, Network.groupDegree, hlt]

variable {network : Network} {assignment : Assignment} (htracks : Tracks network assignment)

include htracks

theorem groupDegree_members {node : Nat} (hlt : node < network.size) (community : Nat) :
    network.groupDegree (assignment.members community) =
      network.groupDegree (assignment.others node community) +
        if assignment.communityOf node = community then network.degree node else 0 := by
  rw [network.groupDegree_perm (Assignment.members_perm (htracks.size_eq ▸ hlt) community)]
  split
  · rw [Network.groupDegree_cons, Nat.add_comm]
  · rw [Nat.add_zero]

/-- A community that a node was released from weighs what its other members weigh. -/
theorem weightOf_release {node : Nat} (hlt : node < network.size) (community : Nat) :
    (assignment.release (assignment.communityOf node) (network.degree node)).weightOf community =
      network.groupDegree (assignment.others node community) := by
  have hown : assignment.communityOf node < assignment.weight.size :=
    htracks.weight_size ▸ htracks.communityOf_lt node hlt
  have hweight := htracks.weightOf_eq community
  rw [htracks.groupDegree_members hlt] at hweight
  rw [Assignment.release, Assignment.weightOf, getD_setIfInBounds hown]
  split
  · next hsame =>
      rw [hsame, hweight, if_pos hsame]
      omega
  · next hne =>
      rw [if_neg hne] at hweight
      exact hweight

theorem reassign {node target : Nat} (hlt : node < network.size) (htarget : target < network.size) :
    Tracks network (assignment.reassign network node target) where
  size_eq := (Assignment.size_community_reassign _ _ _ _).trans htracks.size_eq
  weight_size := by
    simp only [Assignment.reassign, Assignment.join, Assignment.release,
      Array.size_setIfInBounds, htracks.weight_size]
  communityOf_lt := by
    intro other hother
    rw [Assignment.communityOf_reassign (htracks.size_eq ▸ hlt)]
    split
    · exact htarget
    · exact htracks.communityOf_lt other hother
  weightOf_eq := by
    intro community
    have hin : node < assignment.community.size := htracks.size_eq ▸ hlt
    have hafter : node < (assignment.reassign network node target).community.size := by
      rwa [Assignment.size_community_reassign]
    have hroom : target <
        (assignment.release (assignment.communityOf node) (network.degree node)).weight.size := by
      rwa [Assignment.release, Array.size_setIfInBounds, htracks.weight_size]
    rw [network.groupDegree_perm (Assignment.members_perm hafter community),
      Assignment.others_reassign hin, Assignment.communityOf_reassign hin, if_pos rfl]
    rw [Assignment.reassign, Assignment.join, Assignment.weightOf, getD_setIfInBounds hroom]
    split
    · next hsame =>
        rw [hsame, htracks.weightOf_release hlt, Network.groupDegree_cons, Nat.add_comm]
    · exact htracks.weightOf_release hlt community

end Tracks

/-! Visits -/

section Visits

variable {α : Type} [Sub α] [Mul α] [Div α] [NatCast α] [LT α] [DecidableLT α] [BEq α]

/-- The best move of a node and its gain. -/
def moveOf (network : Network) (resolution : α) (total : Nat) (assignment : Assignment)
    (node : Nat) : Nat × α :=
  bestMove resolution total
    (assignment.release (assignment.communityOf node) (network.degree node))
    (adjoining network assignment node) (assignment.communityOf node) (network.degree node)

/-- Where a visit leaves a node. -/
def targetOf (network : Network) (resolution : α) (total : Nat) (assignment : Assignment)
    (node : Nat) : Nat :=
  if ((0 : Nat) : α) < (moveOf network resolution total assignment node).2 then
    (moveOf network resolution total assignment node).1
  else assignment.communityOf node

/-- What a node is worth in a community, next to its other members. -/
def worthIn (network : Network) (resolution : α) (total : Nat) (assignment : Assignment)
    (node community : Nat) : α :=
  worth resolution total (network.linkTo node (assignment.others node community))
    (network.groupDegree (assignment.others node community)) (network.degree node)

/-- What a node gains by leaving its own community for another. -/
def gainIn (network : Network) (resolution : α) (total : Nat) (assignment : Assignment)
    (node community : Nat) : α :=
  worthIn network resolution total assignment node community -
    worthIn network resolution total assignment node (assignment.communityOf node)

theorem visit_eq_reassign (network : Network) (resolution : α) (total : Nat)
    (assignment : Assignment) (moved : Bool) (node : Nat) :
    visit network resolution total (assignment, moved) node =
      (assignment.reassign network node (targetOf network resolution total assignment node),
        moved || targetOf network resolution total assignment node !=
          assignment.communityOf node) :=
  rfl

omit [Sub α] [Mul α] [Div α] [NatCast α] in
theorem foldl_better_mem (start : Nat × α) (candidates : List (Nat × α)) :
    candidates.foldl better start ∈ start :: candidates := by
  induction candidates generalizing start with
  | nil => exact List.mem_cons_self
  | cons candidate rest ih =>
      have hkept : better start candidate = start ∨ better start candidate = candidate := by
        rw [better]
        split
        · exact .inr rfl
        · exact .inl rfl
      have hmem := ih (better start candidate)
      rw [List.foldl_cons]
      rcases List.mem_cons.mp hmem with hstart | hrest
      · rw [hstart]
        rcases hkept with hkept | hkept <;> simp [hkept]
      · exact List.mem_cons_of_mem _ (List.mem_cons_of_mem _ hrest)

/-- A visit leaves a node in its community, or in one next to it. -/
theorem targetOf_mem (network : Network) (resolution : α) (total : Nat) (assignment : Assignment)
    (node : Nat) :
    targetOf network resolution total assignment node ∈
      assignment.communityOf node :: (adjoining network assignment node).map Prod.fst := by
  rw [targetOf]
  split
  · have hmem : moveOf network resolution total assignment node ∈ _ :=
      foldl_better_mem (assignment.communityOf node, ((0 : Nat) : α)) _
    rcases List.mem_cons.mp hmem with hstay | hmove
    · rw [hstay]
      exact List.mem_cons_self
    · obtain ⟨entry, hentry, hmove⟩ := List.mem_map.mp hmove
      rw [← hmove]
      exact List.mem_cons_of_mem _ (List.mem_map_of_mem hentry)
  · exact List.mem_cons_self

section

variable {network : Network} {assignment : Assignment} (hbounded : network.Bounded)
variable (htracks : Tracks network assignment) (resolution : α) (total : Nat)
variable {node : Nat} (hlt : node < network.size)

include hbounded htracks hlt

/-- The gains that a visit compares are measured against the other members. -/
theorem moveOf_eq :
    moveOf network resolution total assignment node =
      (((adjoining network assignment node).map Prod.fst).map fun community =>
        (community, gainIn network resolution total assignment node community)).foldl better
        (assignment.communityOf node, ((0 : Nat) : α)) := by
  have hnodup := nodup_adjoining network assignment node
  have hlink : ∀ entry ∈ adjoining network assignment node,
      entry.2 = network.linkTo node (assignment.others node entry.1) := by
    intro entry hentry
    rw [← weightTo_adjoining hbounded htracks.size_eq, weightTo_of_nodup hnodup hentry]
  rw [moveOf, bestMove]
  simp only [find?_eq_weightTo hnodup, weightTo_adjoining hbounded htracks.size_eq,
    htracks.weightOf_release hlt]
  rw [List.map_map]
  congr 1
  refine List.map_congr_left fun entry hentry => ?_
  rw [hlink entry hentry]
  rfl

/-- The best move is to stay, or it goes to another community with the gain found there. -/
theorem moveOf_cases :
    moveOf network resolution total assignment node =
        (assignment.communityOf node, ((0 : Nat) : α)) ∨
      ∃ community < network.size, moveOf network resolution total assignment node =
        (community, gainIn network resolution total assignment node community) := by
  have hmem := foldl_better_mem (assignment.communityOf node, ((0 : Nat) : α))
    (((adjoining network assignment node).map Prod.fst).map fun community =>
      (community, gainIn network resolution total assignment node community))
  rw [← moveOf_eq hbounded htracks resolution total hlt] at hmem
  rcases List.mem_cons.mp hmem with hstay | hmove
  · exact .inl hstay
  · obtain ⟨community, hcommunity, hmove⟩ := List.mem_map.mp hmove
    obtain ⟨entry, hentry, hlabel⟩ :=
      mem_map_fst_adjoining network assignment node hcommunity
    refine .inr ⟨community, ?_, hmove.symm⟩
    rw [← hlabel]
    exact htracks.communityOf_lt entry.1 (hbounded node entry hentry)

theorem targetOf_lt : targetOf network resolution total assignment node < network.size := by
  have hown := htracks.communityOf_lt node hlt
  rw [targetOf]
  split
  · rcases moveOf_cases hbounded htracks resolution total hlt with hstay | ⟨community, hin, hmove⟩
    · rw [hstay]
      exact hown
    · rw [hmove]
      exact hin
  · exact hown

end

/-! A number that is no node changes nothing. -/

section NoNode

variable {network : Network} {node : Nat} (hle : network.size ≤ node)
variable (resolution : α) (total : Nat) (assignment : Assignment)

include hle

theorem moveOf_of_size_le : moveOf network resolution total assignment node =
    (assignment.communityOf node, ((0 : Nat) : α)) := by
  rw [moveOf, adjoining, Network.neighbours_of_size_le hle]
  rfl

theorem targetOf_of_size_le :
    targetOf network resolution total assignment node = assignment.communityOf node := by
  rw [targetOf, moveOf_of_size_le hle]
  exact ite_self _

theorem reassign_targetOf_of_size_le :
    assignment.reassign network node (targetOf network resolution total assignment node) =
      assignment := by
  have hdegree : network.degree node = 0 := by
    rw [Network.degree, Network.neighbours_of_size_le hle]
    rfl
  rw [targetOf_of_size_le hle, Assignment.reassign, hdegree, Assignment.join, Assignment.release,
    Nat.sub_zero, Nat.add_zero, Assignment.weightOf, Assignment.weightOf, setIfInBounds_getD,
    setIfInBounds_getD, Assignment.communityOf, setIfInBounds_getD]

end NoNode

theorem Tracks.visit {network : Network} {assignment : Assignment} (hbounded : network.Bounded)
    (htracks : Tracks network assignment) (resolution : α) (total : Nat) (moved : Bool)
    (node : Nat) :
    Tracks network (visit network resolution total (assignment, moved) node).1 := by
  rw [visit_eq_reassign]
  by_cases hlt : node < network.size
  · exact htracks.reassign hlt (targetOf_lt hbounded htracks resolution total hlt)
  · rw [reassign_targetOf_of_size_le (Nat.le_of_not_lt hlt)]
    exact htracks

end Visits

end CodeGraph
