import CodeGraph.Proofs.Community.Ascent
import CodeGraph.Proofs.Community.Ties
import Mathlib.Data.List.GetD
import Mathlib.Logic.Relation

namespace CodeGraph

/-! Communities stay within the connected parts of the graph.  A node only ever joins a community
that one of its neighbours is in, so that what linked nodes have in common is common to each
community, on all levels and whatever is found to be a gain. -/

section Coloring

variable {γ : Type}

/-- Linked nodes have the same color. -/
def Network.ColoredBy (network : Network) (color : Nat → γ) : Prop :=
  ∀ node, ∀ entry ∈ network.neighbours node, color entry.1 = color node

/-- The nodes of a community have the same color. -/
def Assignment.ColoredBy (assignment : Assignment) (color : Nat → γ) : Prop :=
  ∀ one < assignment.community.size, ∀ other < assignment.community.size,
    assignment.communityOf one = assignment.communityOf other → color one = color other

/-! Visits -/

section Visits

variable {α : Type} [Sub α] [Mul α] [Div α] [NatCast α] [LT α] [DecidableLT α] [BEq α]

/-- A visit leaves a node in its community, or in that of a neighbour. -/
theorem targetOf_cases (network : Network) (resolution : α) (total : Nat)
    (assignment : Assignment) (node : Nat) :
    targetOf network resolution total assignment node = assignment.communityOf node ∨
      ∃ entry ∈ network.neighbours node, assignment.communityOf entry.1 =
        targetOf network resolution total assignment node := by
  rcases List.mem_cons.mp (targetOf_mem network resolution total assignment node) with hstay | hmove
  · exact .inl hstay
  · exact .inr (mem_map_fst_adjoining network assignment node hmove)

variable {network : Network} {color : Nat → γ} (hbounded : network.Bounded)
variable (hcolored : network.ColoredBy color)

include hbounded hcolored

/-- The community that a visited node goes to has the color of the node. -/
theorem Assignment.ColoredBy.color_eq {assignment : Assignment}
    (hassigned : assignment.ColoredBy color) (hsize : assignment.community.size = network.size)
    (resolution : α) (total : Nat) {node other : Nat} (hnode : node < assignment.community.size)
    (hother : other < assignment.community.size)
    (hjoined : assignment.communityOf other = targetOf network resolution total assignment node) :
    color other = color node := by
  rcases targetOf_cases network resolution total assignment node with hstay | ⟨entry, hentry, hmove⟩
  · exact hassigned other hother node hnode (hjoined.trans hstay)
  · have hin : entry.1 < assignment.community.size := hsize ▸ hbounded node entry hentry
    exact (hassigned other hother entry.1 hin (hjoined.trans hmove.symm)).trans
      (hcolored node entry hentry)

theorem Assignment.ColoredBy.visit {assignment : Assignment}
    (hassigned : assignment.ColoredBy color) (hsize : assignment.community.size = network.size)
    (resolution : α) (total : Nat) (moved : Bool) (node : Nat) :
    (CodeGraph.visit network resolution total (assignment, moved) node).1.ColoredBy color := by
  rw [visit_eq_reassign]
  by_cases hlt : node < network.size
  · have hnode : node < assignment.community.size := hsize ▸ hlt
    intro one hone other hother
    rw [Assignment.size_community_reassign] at hone hother
    rw [Assignment.communityOf_reassign hnode, Assignment.communityOf_reassign hnode]
    split
    · next hsame =>
        subst hsame
        split
        · next hsame =>
            subst hsame
            exact fun _ => rfl
        · intro hboth
          exact (hassigned.color_eq hbounded hcolored hsize resolution total hnode hother
            hboth.symm).symm
    · split
      · next hsame =>
          subst hsame
          exact hassigned.color_eq hbounded hcolored hsize resolution total hnode hone
      · exact hassigned one hone other hother
  · rw [reassign_targetOf_of_size_le (Nat.le_of_not_lt hlt)]
    exact hassigned

theorem coloredBy_settle (resolution : α) (total : Nat) (order : List Nat) :
    (settle network resolution total order).1.ColoredBy color := by
  refine (settle_induction (fun assignment =>
    assignment.community.size = network.size ∧ assignment.ColoredBy color) ?_ order ?_).2
  · rintro assignment moved node ⟨hsize, hassigned⟩
    exact ⟨(size_community_visit ..).trans hsize,
      hassigned.visit hbounded hcolored hsize resolution total moved node⟩
  · refine ⟨Assignment.size_community_singletons network, ?_⟩
    intro one hone other hother hsame
    rw [Assignment.size_community_singletons] at hone hother
    rw [Assignment.communityOf_singletons hone, Assignment.communityOf_singletons hother] at hsame
    rw [hsame]

end Visits

/-! Levels -/

/-- The color of the first node of a block. -/
def Assignment.blockColor (assignment : Assignment) (color : Nat → γ) (place : Nat) : γ :=
  color ((assignment.block place).headD 0)

theorem Assignment.ColoredBy.blockColor_eq {assignment : Assignment} {color : Nat → γ}
    (hassigned : assignment.ColoredBy color) {place node : Nat}
    (hnode : node ∈ assignment.block place) : assignment.blockColor color place = color node := by
  obtain ⟨hlt, hplace⟩ := mem_block.mp hnode
  rw [blockColor]
  cases hblock : assignment.block place with
  | nil =>
      rw [hblock] at hnode
      cases hnode
  | cons first rest =>
      have hfirst : first ∈ assignment.block place := hblock ▸ List.mem_cons_self
      obtain ⟨hin, hsame⟩ := mem_block.mp hfirst
      refine hassigned first hin node hlt ?_
      exact (List.idxOf_inj (communityOf_mem_labels hin)).mp (hsame.trans hplace.symm)

theorem Assignment.ColoredBy.contract {assignment : Assignment} {network : Network}
    {color : Nat → γ} (hassigned : assignment.ColoredBy color) (hbounded : network.Bounded)
    (hsize : assignment.community.size = network.size) (hcolored : network.ColoredBy color) :
    (assignment.contract network).ColoredBy (assignment.blockColor color) := by
  intro place entry hentry
  rw [neighbours_contract] at hentry
  have hkey := mem_map_fst_gather.mp (List.mem_map_of_mem (f := Prod.fst) hentry)
  simp only [List.map_map, List.mem_map, List.mem_flatMap] at hkey
  obtain ⟨found, ⟨node, hnode, hfound⟩, hplace⟩ := hkey
  have hlt : found.1 < assignment.community.size := hsize ▸ hbounded node found hfound
  rw [hassigned.blockColor_eq hnode, ← hcolored node found hfound]
  exact hassigned.blockColor_eq (mem_block.mpr ⟨hlt, hplace⟩)

/-- The groups that the nodes of a level stand for have the color of the node. -/
def GroupsColored (color : Nat → γ) (groups : List (List Nat)) (levelColor : Nat → γ) : Prop :=
  ∀ node, ∀ original ∈ groups.getD node [], color original = levelColor node

theorem GroupsColored.merge {color levelColor : Nat → γ} {groups : List (List Nat)}
    (hgroups : GroupsColored color groups levelColor) {assignment : Assignment}
    (hassigned : assignment.ColoredBy levelColor) :
    GroupsColored color (assignment.merge groups) (assignment.blockColor levelColor) := by
  intro place original horiginal
  rw [Assignment.getD_merge] at horiginal
  obtain ⟨node, hnode, hmem⟩ := List.mem_flatMap.mp horiginal
  rw [hassigned.blockColor_eq hnode]
  exact hgroups node original hmem

section Runs

variable {α σ : Type} [Sub α] [Mul α] [Div α] [NatCast α] [LT α] [DecidableLT α] [BEq α]
variable (draw : σ → Nat → List Nat × σ) (resolution : α)

theorem groupsColored_mergeUpTo (total fuel : Nat) (source : σ) {original network : Network}
    {groups : List (List Nat)} (hlevel : Level original network groups)
    {color levelColor : Nat → γ} (hcolored : network.ColoredBy levelColor)
    (hgroups : GroupsColored color groups levelColor) :
    ∃ lastColor, GroupsColored color
      (mergeUpTo draw resolution total fuel source network groups) lastColor := by
  induction fuel generalizing source network groups levelColor with
  | zero => exact ⟨levelColor, hgroups⟩
  | succ fuel ih =>
      have hbounded := hlevel.undirected.bounded
      have hsize := size_community_settle network resolution total (draw source network.size).1
      have hassigned := coloredBy_settle hbounded hcolored resolution total
        (draw source network.size).1
      rw [mergeUpTo]
      split
      · exact ⟨levelColor, hgroups⟩
      · dsimp only
        cases hstate : settle network resolution total (draw source network.size).1 with
        | mk assignment moved =>
            rw [hstate] at hsize hassigned
            cases moved with
            | false => exact ⟨levelColor, hgroups⟩
            | true =>
                dsimp only
                split
                · exact ⟨levelColor, hgroups⟩
                · exact ih _ (hlevel.contract hsize)
                    (hassigned.contract hbounded hsize hcolored) (hgroups.merge hassigned)

/-- What linked nodes have in common is common to each cluster. -/
theorem color_eq_of_mem_clusters {network : Network} (hundirected : network.Undirected)
    {color : Nat → γ} (hcolored : network.ColoredBy color) (source : σ) {group : List Nat}
    (hgroup : group ∈ clusters draw source resolution network) {one other : Nat}
    (hone : one ∈ group) (hother : other ∈ group) : color one = color other := by
  have hlevel := Level.ofSingletons hundirected
  have hsingle : GroupsColored color (singletonGroups network.size) color := by
    intro node original horiginal
    rw [singletonGroups, List.getD_eq_getElem?_getD, List.getElem?_map] at horiginal
    by_cases hlt : node < network.size
    · simp only [List.getElem?_range hlt, Option.map_some, Option.getD_some,
        List.mem_singleton] at horiginal
      rw [horiginal]
    · rw [List.getElem?_eq_none (by rw [List.length_range]; omega)] at horiginal
      cases horiginal
  have hclusters : ∃ lastColor,
      GroupsColored color (clusters draw source resolution network) lastColor := by
    rw [clusters]
    split
    · exact ⟨color, hsingle⟩
    · exact groupsColored_mergeUpTo draw resolution _ _ source hlevel hcolored hsingle
  obtain ⟨lastColor, hlast⟩ := hclusters
  obtain ⟨place, hplace⟩ := List.mem_iff_getElem?.mp hgroup
  have hfound : (clusters draw source resolution network).getD place [] = group := by
    rw [List.getD_eq_getElem?_getD, hplace]
    rfl
  exact (hlast place one (hfound ▸ hone)).trans (hlast place other (hfound ▸ hother)).symm

end Runs

end Coloring

/-! Connected chunks -/

namespace Store

/-- Two chunks that share an edge, in either direction, or a phantom that both refer to. -/
structure Tied (store : Store) (a b : String) : Prop where
  left_mem : a ∈ store.chunkIds
  right_mem : b ∈ store.chunkIds
  shares : store.edgesBetween a b ≠ [] ∨ store.sharedPhantoms a b ≠ []

/-- A chain of chunks leads from one to the other. -/
def Connected (store : Store) : String → String → Prop :=
  Relation.ReflTransGen store.Tied

theorem Tied.symm {store : Store} {a b : String} (htied : store.Tied a b) : store.Tied b a where
  left_mem := htied.right_mem
  right_mem := htied.left_mem
  shares := by
    rw [edgesBetween_comm, sharedPhantoms_comm]
    exact htied.shares

section

variable {store : Store} (hsound : store.Sound)

include hsound

theorem tied_of_mem_neighbours {node : Nat} {entry : Nat × Nat}
    (hmem : entry ∈ store.network.neighbours node) :
    store.Tied (store.networkNames.getD node "") (store.networkNames.getD entry.1 "") := by
  have hentry : entry.1 < store.networkNames.length :=
    store.size_network ▸ store.bounded_network node entry hmem
  have hnode : node < store.networkNames.length := by
    by_contra hout
    rw [Network.neighbours_of_size_le (by rw [size_network]; omega)] at hmem
    cases hmem
  have hchunk : ∀ {place}, place < store.networkNames.length →
      store.networkNames.getD place "" ∈ store.chunkIds := by
    intro place hplace
    rw [List.getD_eq_getElem _ _ hplace]
    exact (List.mergeSort_perm _ _).subset (List.getElem_mem hplace)
  obtain ⟨-, hshares, -⟩ :=
    (mem_neighbours_iff_tied hsound ⟨node, hnode⟩ ⟨entry.1, hentry⟩ entry.2).mp hmem
  refine ⟨hchunk hnode, hchunk hentry, ?_⟩
  rw [List.getD_eq_getElem _ _ hnode, List.getD_eq_getElem _ _ hentry]
  exact hshares

/-- To be connected to a given chunk is common to linked nodes. -/
theorem coloredBy_connected (name : String) :
    store.network.ColoredBy fun node => store.Connected name (store.networkNames.getD node "") := by
  intro node entry hmem
  have htied := tied_of_mem_neighbours hsound hmem
  exact propext ⟨fun hfar => hfar.tail htied.symm, fun hnear => hnear.tail htied⟩

variable {α σ : Type} [Sub α] [Mul α] [Div α] [NatCast α] [LT α] [DecidableLT α] [BEq α]

theorem connected_of_communitiesBy (draw : σ → Nat → List Nat × σ) (source : σ) (resolution : α)
    {a b : String} {number : Nat}
    (ha : (store.communitiesBy draw source resolution).get? a = some number)
    (hb : (store.communitiesBy draw source resolution).get? b = some number) :
    store.Connected a b := by
  have hranked := ranked_namedGroups (nodup_networkNames hsound)
    (store.partition_clusters_network draw source resolution)
  obtain ⟨group, hplace, ha⟩ := (get?_numbered hranked.nodup).mp ha
  obtain ⟨same, hsame, hb⟩ := (get?_numbered hranked.nodup).mp hb
  obtain rfl : group = same := Option.some.inj (hplace.symm.trans hsame)
  obtain ⟨nodes, hnodes, rfl⟩ := mem_namedGroups (List.mem_of_getElem? hplace)
  obtain ⟨one, hone, rfl⟩ := List.mem_map.mp (List.mem_mergeSort.mp ha)
  obtain ⟨other, hother, rfl⟩ := List.mem_map.mp (List.mem_mergeSort.mp hb)
  have hcolor := color_eq_of_mem_clusters draw resolution (undirected_network hsound)
    (coloredBy_connected hsound (store.networkNames.getD one "")) source hnodes hone hother
  exact hcolor.mp .refl

end

/-- A detection that succeeds finds the communities of its numbers, or there are no chunks. -/
theorem communities_of_detect {store : Store} {resolution : Float} {seed : Nat}
    {detection : Detection} (hdetect : store.detect resolution seed = .ok detection) :
    store.chunkIds = [] ∨
      detection.communities = store.communitiesBy Generator.shuffle (.ofSeed seed) resolution := by
  unfold detect at hdetect
  split at hdetect
  · cases hdetect
  · split at hdetect
    · next hempty =>
        have hids : store.networkNames.Perm store.chunkIds := List.mergeSort_perm _ _
        rw [List.isEmpty_iff.mp hempty] at hids
        exact .inl hids.symm.eq_nil
    · dsimp only at hdetect
      split at hdetect
      · cases hdetect
        exact .inr rfl
      · cases hdetect

theorem exists_number {communities : Communities} {ids : List String}
    (hcanonical : communities.Canonical ids) {id : String} (hmem : id ∈ ids) :
    ∃ number, communities.get? id = some number := by
  obtain ⟨entry, hentry, hname⟩ := List.mem_map.mp (hcanonical.keys.symm.subset hmem)
  have hfound : (communities.find? fun entry => entry.1 == id).isSome = true :=
    List.find?_isSome.mpr ⟨entry, hentry, by simp [hname]⟩
  rw [← Option.isSome_iff_exists, NameMap.get?, Option.isSome_map]
  exact hfound

/-- Chunks of one community are connected, for every resolution and seed and in any arithmetic. -/
theorem connected_of_same_community (history : List Mutation) :
    let store := ofHistory history
    (∀ (resolution : Float) (seed : Nat) (detection : Detection),
      store.detect resolution seed = .ok detection →
        ∀ a ∈ store.chunkIds, ∀ b ∈ store.chunkIds,
          detection.communities.get? a = detection.communities.get? b → store.Connected a b) ∧
    -- whatever the comparisons of the gains decide, and for any visiting orders
    ∀ (α σ : Type) [Sub α] [Mul α] [Div α] [NatCast α] [LT α] [DecidableLT α] [BEq α]
      (draw : σ → Nat → List Nat × σ) (source : σ) (resolution : α),
      let communities := store.communitiesBy draw source resolution
      ∀ a ∈ store.chunkIds, ∀ b ∈ store.chunkIds,
        communities.get? a = communities.get? b → store.Connected a b := by
  intro store
  have hsound : store.Sound := Sound.ofHistory history
  have hany : ∀ (α σ : Type) [Sub α] [Mul α] [Div α] [NatCast α] [LT α] [DecidableLT α] [BEq α]
      (draw : σ → Nat → List Nat × σ) (source : σ) (resolution : α),
      ∀ a ∈ store.chunkIds, ∀ b ∈ store.chunkIds,
        (store.communitiesBy draw source resolution).get? a =
          (store.communitiesBy draw source resolution).get? b → store.Connected a b := by
    intro α σ _ _ _ _ _ _ _ draw source resolution a ha b _ hsame
    obtain ⟨number, hnumber⟩ :=
      exists_number (canonical_communitiesBy hsound draw source resolution) ha
    exact connected_of_communitiesBy hsound draw source resolution hnumber (hsame ▸ hnumber)
  refine ⟨?_, hany⟩
  intro resolution seed detection hdetect a ha b hb hsame
  rcases communities_of_detect hdetect with hnone | hfound
  · rw [hnone] at ha
    cases ha
  · rw [hfound] at hsame
    exact hany _ _ Generator.shuffle (.ofSeed seed) resolution a ha b hb hsame

theorem connected_of_same_community_grown :
    let store := ofHistory grown
    let draw := fun (_ : Unit) (size : Nat) => (List.range size, ())
    let communities := store.communitiesBy draw () (1 : ℚ)
    communities.get? "a" = some 0 ∧ communities.get? "b" = some 0 ∧ store.Connected "a" "b" := by
  intro store draw communities
  have hsort : ["a", "b"].mergeSort = ["a", "b"] := List.mergeSort_of_pairwise (by decide)
  have hids : store.chunkIds = ["a", "b"] := by decide
  have hclusters : clusters draw () (1 : ℚ) store.network = [[0, 1]] := by
    rw [show store.network = #[[(1, 2)], [(0, 2)]] from network_grown]
    decide +kernel
  have hfound : store.communitiesBy draw () (1 : ℚ) = [("a", 0), ("b", 0)] := by
    rw [communitiesBy, networkNames, hclusters, hids, hsort,
      namedGroups, List.map_singleton, List.mergeSort_singleton]
    simp only [List.map_cons, List.map_nil, List.getD_cons_zero, List.getD_cons_succ, hsort]
    decide
  have ha : communities.get? "a" = some 0 := congrArg (NameMap.get? · "a") hfound
  have hb : communities.get? "b" = some 0 := congrArg (NameMap.get? · "b") hfound
  exact ⟨ha, hb, (connected_of_same_community grown).2 ℚ Unit draw () 1 "a" (by rw [hids]; decide)
    "b" (by rw [hids]; decide) (ha.trans hb.symm)⟩

end Store

end CodeGraph
