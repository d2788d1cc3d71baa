import CodeGraph.Proofs.Community.Arrangement
import CodeGraph.Proofs.Subgraph.Order

namespace CodeGraph

/-! Weights between nodes and groups of nodes.  The network of a store has no direction: two nodes
are linked by the same weight from either side. -/

theorem weightOn_contains_cons {κ : Type} [BEq κ] [LawfulBEq κ] {key : κ} {keys : List κ}
    (hfresh : key ∉ keys) (entries : List (κ × Nat)) :
    weightOn entries (fun other => (key :: keys).contains other) =
      weightTo entries key + weightOn entries fun other => keys.contains other := by
  induction entries with
  | nil => rfl
  | cons entry rest ih =>
      rw [weightTo, weightOn_cons, weightOn_cons, weightOn_cons, ih, weightTo]
      by_cases hkey : entry.1 = key
      · have hnone : keys.contains key = false := by simpa using hfresh
        simp only [hkey, hnone, beq_self_eq_true, List.contains_cons, Bool.true_or, if_true,
          Bool.false_eq_true, if_false]
        omega
      · have hne : (entry.1 == key) = false := beq_eq_false_iff_ne.mpr hkey
        simp only [List.contains_cons, hne, Bool.false_or, Bool.false_eq_true, if_false]
        omega

namespace Network

def between (network : Network) (one other : Nat) : Nat :=
  weightTo (network.neighbours one) other

/-- The weight of the links from a node into a group. -/
def linkTo (network : Network) (node : Nat) (group : List Nat) : Nat :=
  weightOn (network.neighbours node) fun other => group.contains other

/-- Every neighbour is a node. -/
def Bounded (network : Network) : Prop :=
  ∀ node, ∀ entry ∈ network.neighbours node, entry.1 < network.size

theorem bounded_iff {network : Network} :
    network.Bounded ↔ ∀ entries ∈ network, ∀ entry ∈ entries, entry.1 < network.size := by
  constructor
  · intro hbounded entries hentries entry hentry
    obtain ⟨node, hlt, rfl⟩ := Array.mem_iff_getElem.mp hentries
    refine hbounded node entry ?_
    rwa [neighbours, Array.getD_eq_getD_getElem?, Array.getElem?_eq_getElem hlt]
  · intro hall node entry hentry
    by_cases hlt : node < network.size
    · rw [neighbours, Array.getD_eq_getD_getElem?, Array.getElem?_eq_getElem hlt] at hentry
      exact hall _ (Array.getElem_mem hlt) entry hentry
    · rw [neighbours, Array.getD_eq_getD_getElem?,
        Array.getElem?_eq_none (Nat.le_of_not_lt hlt)] at hentry
      cases hentry

instance (network : Network) : Decidable network.Bounded :=
  decidable_of_iff _ bounded_iff.symm

structure Undirected (network : Network) : Prop where
  bounded : network.Bounded
  symm : ∀ one other, one < network.size → other < network.size →
    network.between one other = network.between other one

theorem neighbours_of_size_le {network : Network} {node : Nat} (hle : network.size ≤ node) :
    network.neighbours node = [] := by
  simp [neighbours, Array.getElem?_eq_none hle]

theorem between_of_size_le {network : Network} (hbounded : network.Bounded) (one : Nat)
    {other : Nat} (hle : network.size ≤ other) : network.between one other = 0 := by
  refine weightTo_eq_zero fun entry hentry hkey => ?_
  have hlt := hbounded one entry hentry
  omega

/-- Outside of the network there are no links. -/
theorem Undirected.between_comm {network : Network} (hundirected : network.Undirected)
    (one other : Nat) : network.between one other = network.between other one := by
  have hnone : ∀ node, network.size ≤ node → ∀ next,
      network.between node next = network.between next node := by
    intro node hle next
    rw [between_of_size_le hundirected.bounded next hle, between, neighbours_of_size_le hle]
    rfl
  by_cases hone : one < network.size
  · by_cases hother : other < network.size
    · exact hundirected.symm one other hone hother
    · exact (hnone other (Nat.le_of_not_lt hother) one).symm
  · exact hnone one (Nat.le_of_not_lt hone) other

theorem degree_eq_weightOn (network : Network) (node : Nat) :
    network.degree node = weightOn (network.neighbours node) fun _ => true := by
  rw [degree, weightOn, List.filter_true]

theorem groupInside_eq (network : Network) (group : List Nat) :
    network.groupInside group = sumOf (group.map fun node => network.linkTo node group) :=
  rfl

theorem linkTo_nil (network : Network) (node : Nat) : network.linkTo node [] = 0 := by
  simp [linkTo, weightOn]

theorem linkTo_cons (network : Network) (node : Nat) {other : Nat} {group : List Nat}
    (hfresh : other ∉ group) :
    network.linkTo node (other :: group) =
      network.between node other + network.linkTo node group :=
  weightOn_contains_cons hfresh _

theorem linkTo_eq_sumOf (network : Network) (node : Nat) {group : List Nat}
    (hnodup : group.Nodup) :
    network.linkTo node group = sumOf (group.map (network.between node)) := by
  induction group with
  | nil => exact network.linkTo_nil node
  | cons other rest ih =>
      rw [List.nodup_cons] at hnodup
      rw [linkTo_cons network node hnodup.1, ih hnodup.2, List.map_cons, sumOf_cons]

/-- A node that joins a group adds its links into the group, each counted at both ends. -/
theorem Undirected.groupInside_cons {network : Network} (hundirected : network.Undirected)
    {node : Nat} {group : List Nat} (hnodup : (node :: group).Nodup) :
    network.groupInside (node :: group) =
      network.groupInside group + 2 * network.linkTo node group + network.between node node := by
  rw [List.nodup_cons] at hnodup
  have hback : sumOf (group.map fun other => network.between other node) =
      network.linkTo node group := by
    rw [linkTo_eq_sumOf network node hnodup.2]
    simp only [hundirected.between_comm _ node]
  rw [groupInside_eq, groupInside_eq, List.map_cons, sumOf_cons]
  simp only [linkTo_cons network _ hnodup.1, sumOf_map_add, hback]
  omega

theorem groupDegree_cons (network : Network) (node : Nat) (group : List Nat) :
    network.groupDegree (node :: group) = network.degree node + network.groupDegree group :=
  rfl

theorem groupDegree_perm (network : Network) {group others : List Nat}
    (hperm : group.Perm others) : network.groupDegree group = network.groupDegree others :=
  sumOf_perm (hperm.map network.degree)

theorem groupInside_perm (network : Network) {group others : List Nat}
    (hperm : group.Perm others) : network.groupInside group = network.groupInside others := by
  have hlinks : ∀ node, network.linkTo node group = network.linkTo node others := by
    intro node
    refine weightOn_congr fun entry _ => ?_
    rw [Bool.eq_iff_iff, List.contains_iff_mem, List.contains_iff_mem, hperm.mem_iff]
  rw [groupInside_eq, groupInside_eq]
  simp only [hlinks]
  exact sumOf_perm (hperm.map _)

end Network

/-! The network of a store -/

theorem weightTo_end?_comm (links : List Link) (one other : String) :
    weightTo (links.filterMap (Link.end? one)) other =
      weightTo (links.filterMap (Link.end? other)) one := by
  by_cases hsame : one = other
  · rw [hsame]
  · induction links with
    | nil => rfl
    | cons link rest ih =>
        simp only [weightTo] at ih ⊢
        simp only [List.filterMap_cons, Link.end?]
        grind [weightOn_cons]

namespace Store

theorem mem_of_mem_ofPairs {names : List String} {link : Link} (hmem : link ∈ Link.ofPairs names) :
    link.one ∈ names ∧ link.other ∈ names := by
  induction names with
  | nil => cases hmem
  | cons name rest ih =>
      rw [Link.ofPairs, List.mem_append, List.mem_map] at hmem
      rcases hmem with ⟨other, hother, rfl⟩ | hrest
      · exact ⟨List.mem_cons_self, List.mem_cons_of_mem _ hother⟩
      · exact ⟨List.mem_cons_of_mem _ (ih hrest).1, List.mem_cons_of_mem _ (ih hrest).2⟩

theorem mem_networkNames_of_link {store : Store} {link : Link} (hmem : link ∈ store.networkLinks) :
    link.one ∈ store.networkNames ∧ link.other ∈ store.networkNames := by
  rw [networkLinks, List.mem_append] at hmem
  rcases hmem with hedge | hphantom
  · obtain ⟨edge, hkept, rfl⟩ := List.mem_map.mp hedge
    have hends := (List.mem_filter.mp hkept).2
    simp only [Bool.and_eq_true, List.contains_iff_mem] at hends
    exact ⟨hends.1.2, hends.2⟩
  · obtain ⟨phantom, -, hpair⟩ := List.mem_flatMap.mp hphantom
    have hreferrer : ∀ name ∈ Link.referrers store store.networkNames phantom,
        name ∈ store.networkNames := by
      intro name hname
      rw [Link.referrers, List.mem_mergeSort, List.mem_filter] at hname
      exact List.contains_iff_mem.mp hname.2
    have hends := mem_of_mem_ofPairs hpair
    exact ⟨hreferrer _ hends.1, hreferrer _ hends.2⟩

theorem mem_networkNames_of_neighboursOf {store : Store} {name : String} {entry : String × Nat}
    (hmem : entry ∈ neighboursOf store.networkLinks name) : entry.1 ∈ store.networkNames := by
  rw [neighboursOf_eq_gather] at hmem
  obtain ⟨found, hfound, hkey⟩ := List.mem_map.mp (mem_gather.mp hmem).1
  obtain ⟨link, hlink, hend⟩ := List.mem_filterMap.mp hfound
  have hends := mem_networkNames_of_link hlink
  rw [Link.end?] at hend
  rw [← hkey]
  split at hend
  · cases hend
    exact hends.2
  · split at hend
    · cases hend
      exact hends.1
    · cases hend

theorem neighbours_network {store : Store} {node : Nat} (hlt : node < store.networkNames.length) :
    store.network.neighbours node =
      (neighboursOf store.networkLinks store.networkNames[node]).map fun entry =>
        (store.networkNames.idxOf entry.1, entry.2) := by
  rw [network, Network.neighbours_toArray, List.getElem?_map, List.getElem?_eq_getElem hlt]
  rfl

theorem between_network {store : Store} (hsound : store.Sound) {one other : Nat}
    (hone : one < store.networkNames.length) (hother : other < store.networkNames.length) :
    store.network.between one other =
      weightTo (store.networkLinks.filterMap (Link.end? store.networkNames[one]))
        store.networkNames[other] := by
  have hplace : weightOn (neighboursOf store.networkLinks store.networkNames[one])
        (fun name => store.networkNames.idxOf name == other) =
      weightOn (neighboursOf store.networkLinks store.networkNames[one])
        (· == store.networkNames[other]) := by
    refine weightOn_congr fun entry _ => ?_
    rw [Bool.eq_iff_iff, beq_iff_eq, beq_iff_eq]
    constructor
    · rintro rfl
      exact (List.getElem_idxOf _).symm
    · intro hname
      rw [hname, (nodup_networkNames hsound).idxOf_getElem]
  rw [Network.between, neighbours_network hone, weightTo,
    weightOn_map fun name => store.networkNames.idxOf name, hplace, neighboursOf_eq_gather,
    weightOn_gather, weightTo]

theorem bounded_network (store : Store) : store.network.Bounded := by
  intro node entry hentry
  rw [size_network]
  by_cases hlt : node < store.networkNames.length
  · rw [neighbours_network hlt] at hentry
    obtain ⟨found, hfound, rfl⟩ := List.mem_map.mp hentry
    exact List.idxOf_lt_length_of_mem (mem_networkNames_of_neighboursOf hfound)
  · rw [Network.neighbours_of_size_le (by rw [size_network]; omega)] at hentry
    cases hentry

theorem undirected_network {store : Store} (hsound : store.Sound) :
    store.network.Undirected where
  bounded := store.bounded_network
  symm := by
    intro one other hone hother
    rw [size_network] at hone hother
    rw [between_network hsound hone hother, between_network hsound hother hone,
      weightTo_end?_comm]

end Store

end CodeGraph
