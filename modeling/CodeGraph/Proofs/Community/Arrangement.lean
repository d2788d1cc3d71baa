import CodeGraph.Proofs.Community.Numbering
import CodeGraph.Proofs.Community.Weights

namespace CodeGraph

/-! Communities depend on the graph and not on the order in which its nodes and edges are listed.
Every decision is made on sums of weights, on sorted names and on labels. -/

/-! Weights of adjoining communities -/

theorem addToSorted_comm (one other : Nat × Nat) (weights : List (Nat × Nat)) :
    addToSorted one.1 one.2 (addToSorted other.1 other.2 weights) =
      addToSorted other.1 other.2 (addToSorted one.1 one.2 weights) := by
  induction weights with
  | nil => grind [addToSorted]
  | cons known rest ih => grind [addToSorted]

/-! Networks that list the same neighbours -/

namespace Network

theorem neighbours_toArray (lists : List (List (Nat × Nat))) (node : Nat) :
    neighbours lists.toArray node = lists[node]?.getD [] := by
  simp [neighbours]

structure Alike (first second : Network) : Prop where
  size_eq : first.size = second.size
  neighbours_perm : ∀ node, (first.neighbours node).Perm (second.neighbours node)

namespace Alike

variable {first second : Network} (halike : Alike first second)

include halike

theorem degree_eq : first.degree = second.degree := by
  funext node
  exact sumOf_perm ((halike.neighbours_perm node).map Prod.snd)

theorem total_eq : first.total = second.total := by
  rw [total, total, halike.size_eq, halike.degree_eq]

theorem adjoining_eq (assignment : Assignment) (node : Nat) :
    adjoining first assignment node = adjoining second assignment node := by
  refine ((halike.neighbours_perm node).filter _).foldl_eq' ?_ []
  intro one _ other _ weights
  exact addToSorted_comm (assignment.communityOf other.1, other.2)
    (assignment.communityOf one.1, one.2) weights

theorem singletons_eq : Assignment.singletons first = Assignment.singletons second := by
  rw [Assignment.singletons, Assignment.singletons, halike.size_eq, halike.degree_eq]

theorem contract (assignment : Assignment) :
    Alike (assignment.contract first) (assignment.contract second) where
  size_eq := by rw [Assignment.size_contract, Assignment.size_contract]
  neighbours_perm := by
    intro place
    rw [Assignment.contract, Assignment.contract, neighbours_toArray, neighbours_toArray,
      List.getElem?_map, List.getElem?_map]
    cases assignment.labels[place]? with
    | none => exact .refl _
    | some label =>
        have hinside : ((assignment.members label).flatMap first.neighbours).Perm
            ((assignment.members label).flatMap second.neighbours) :=
          List.Perm.flatMap_left _ fun node _ => halike.neighbours_perm node
        have hgathered := gather_perm (hinside.map fun entry =>
          (assignment.labels.idxOf (assignment.communityOf entry.1), entry.2))
        rw [gather, gather, List.foldl_map, List.foldl_map] at hgathered
        exact hgathered

section Runs

variable {α σ : Type} [Sub α] [Mul α] [Div α] [NatCast α] [LT α] [DecidableLT α] [BEq α]

theorem visit_eq (resolution : α) (total : Nat) :
    visit first resolution total = visit second resolution total := by
  funext state node
  simp only [visit, halike.adjoining_eq, halike.degree_eq]

theorem settle_eq (resolution : α) (total : Nat) (order : List Nat) :
    settle first resolution total order = settle second resolution total order := by
  have hrounds : ∀ rounds state,
      settleUpTo first resolution total order rounds state =
        settleUpTo second resolution total order rounds state := by
    intro rounds
    induction rounds with
    | zero =>
        intro state
        rfl
    | succ rounds ih =>
        intro state
        simp only [settleUpTo, halike.visit_eq, ih]
  rw [settle, settle, hrounds, halike.singletons_eq]

theorem mergeUpTo_eq (draw : σ → Nat → List Nat × σ) (resolution : α) (total fuel : Nat)
    (source : σ) (groups : List (List Nat)) :
    mergeUpTo draw resolution total fuel source first groups =
      mergeUpTo draw resolution total fuel source second groups := by
  induction fuel generalizing first second source groups with
  | zero => rfl
  | succ fuel ih =>
      simp only [mergeUpTo, halike.size_eq, halike.settle_eq]
      split
      · rfl
      · split
        · rfl
        · split
          · rfl
          · exact ih (halike.contract _) _ _

theorem clusters_eq (draw : σ → Nat → List Nat × σ) (source : σ) (resolution : α) :
    clusters draw source resolution first = clusters draw source resolution second := by
  rw [clusters, clusters, halike.total_eq, halike.size_eq, halike.mergeUpTo_eq]

omit [LT α] [DecidableLT α] [BEq α] in
theorem modularity_eq [Add α] (resolution : α) (groups : List (List Nat)) :
    first.modularity resolution groups = second.modularity resolution groups := by
  have hinside : first.groupInside = second.groupInside := by
    funext group
    refine congrArg sumOf (List.map_congr_left fun node _ => ?_)
    exact sumOf_perm (((halike.neighbours_perm node).filter _).map Prod.snd)
  have hgroup : first.groupModularity resolution = second.groupModularity resolution := by
    funext group
    simp only [groupModularity, groupDegree, halike.degree_eq, halike.total_eq, hinside]
  rw [modularity, modularity, halike.total_eq, hgroup]

end Runs

end Alike

end Network

/-! Stores that hold the same nodes and edges -/

/-- What a link adds to the neighbours of a name. -/
def Link.end? (name : String) (link : Link) : Option (String × Nat) :=
  if link.one = name then some (link.other, link.weight)
  else if link.other = name then some (link.one, link.weight)
  else none

theorem Store.neighboursOf_eq_gather (links : List Link) (name : String) :
    neighboursOf links name = gather (links.filterMap (Link.end? name)) := by
  rw [gather, List.foldl_filterMap, neighboursOf]
  congr 1
  funext neighbours link
  rw [Link.addTo, Link.end?]
  split
  · rfl
  · split <;> rfl

theorem mergeSort_eq_of_perm {names others : List String} (hperm : names.Perm others) :
    names.mergeSort = others.mergeSort := by
  refine List.Perm.eq_of_pairwise (fun one other _ _ => String.le_antisymm)
    (pairwise_mergeSort_by id names) (pairwise_mergeSort_by id others) ?_
  exact (List.mergeSort_perm _ _).trans (hperm.trans (List.mergeSort_perm _ _).symm)

theorem eraseDups_perm {names others : List String} (hperm : names.Perm others) :
    names.eraseDups.Perm others.eraseDups := by
  rw [List.perm_ext_iff_of_nodup (nodup_eraseDups names) (nodup_eraseDups others)]
  intro name
  rw [List.mem_eraseDups, List.mem_eraseDups, hperm.mem_iff]

namespace Store

section Permuted

variable {first second : Store}
variable (hnodes : first.nodes.Perm second.nodes) (hedges : first.edges.Perm second.edges)

include hnodes

theorem networkNames_eq_of_perm : first.networkNames = second.networkNames :=
  mergeSort_eq_of_perm ((hnodes.filter _).map Node.id)

include hedges

theorem networkLinks_perm : first.networkLinks.Perm second.networkLinks := by
  have hnames := networkNames_eq_of_perm hnodes
  have hphantoms : first.phantomIds.mergeSort = second.phantomIds.mergeSort :=
    mergeSort_eq_of_perm ((hnodes.filter _).map Node.id)
  have hreferrers : ∀ names phantom,
      Link.referrers first names phantom = Link.referrers second names phantom := by
    intro names phantom
    apply mergeSort_eq_of_perm
    exact (eraseDups_perm ((hedges.filter _).map Edge.source)).filter _
  rw [networkLinks, networkLinks, hnames, hphantoms]
  simp only [hreferrers]
  exact ((hedges.filter _).map _).append_right _

theorem network_alike : Network.Alike first.network second.network where
  size_eq := by rw [size_network, size_network, networkNames_eq_of_perm hnodes]
  neighbours_perm := by
    intro node
    rw [network, network, Network.neighbours_toArray, Network.neighbours_toArray,
      networkNames_eq_of_perm hnodes, List.getElem?_map, List.getElem?_map]
    cases second.networkNames[node]? with
    | none => exact .refl _
    | some name =>
        refine List.Perm.map _ ?_
        rw [neighboursOf_eq_gather, neighboursOf_eq_gather]
        exact gather_perm ((networkLinks_perm hnodes hedges).filterMap _)

theorem detect_eq_of_perm (resolution : Float) (seed : Nat) :
    first.detect resolution seed = second.detect resolution seed := by
  have halike := network_alike hnodes hedges
  simp only [detect, communitiesBy, networkNames_eq_of_perm hnodes, halike.clusters_eq,
    halike.modularity_eq]

end Permuted

/-- Stores with the same nodes and the same edges have the same communities, whatever was done to
them before. -/
theorem detect_of_same_graph (history other : List Mutation)
    (hnodes : ∀ node, node ∈ (ofHistory history).nodes ↔ node ∈ (ofHistory other).nodes)
    (hedges : ∀ edge, edge ∈ (ofHistory history).edges ↔ edge ∈ (ofHistory other).edges) :
    let first := ofHistory history
    let second := ofHistory other
    (∀ (resolution : Float) (seed : Nat),
      first.detect resolution seed = second.detect resolution seed) ∧
    -- in any arithmetic, and for any visiting orders
    ∀ (α σ : Type) [Add α] [Sub α] [Mul α] [Div α] [NatCast α] [LT α] [DecidableLT α] [BEq α]
      (draw : σ → Nat → List Nat × σ) (source : σ) (resolution : α),
      first.communitiesBy draw source resolution = second.communitiesBy draw source resolution ∧
      first.network.modularity resolution (clusters draw source resolution first.network) =
        second.network.modularity resolution
          (clusters draw source resolution second.network) := by
  intro first second
  have hfirst : first.Sound := Sound.ofHistory history
  have hsecond : second.Sound := Sound.ofHistory other
  have hnodes : first.nodes.Perm second.nodes :=
    (List.perm_ext_iff_of_nodup (hfirst.ids_nodup.of_map Node.id)
      (hsecond.ids_nodup.of_map Node.id)).mpr hnodes
  have hedges : first.edges.Perm second.edges :=
    (List.perm_ext_iff_of_nodup (hfirst.keys_nodup.of_map Edge.key)
      (hsecond.keys_nodup.of_map Edge.key)).mpr hedges
  have halike := network_alike hnodes hedges
  refine ⟨detect_eq_of_perm hnodes hedges, ?_⟩
  intro α σ _ _ _ _ _ _ _ _ draw source resolution
  rw [communitiesBy, communitiesBy, networkNames_eq_of_perm hnodes, halike.clusters_eq,
    halike.modularity_eq]
  exact ⟨rfl, rfl⟩

def sampleChunk (id : String) : Mutation :=
  .addNode (.chunk id id .function "a.py" "python" none 1 2)

def sampleCall (source target : String) : Mutation :=
  .addEdge { source, target, relation := .calls }

/-- Two chunks that refer to each other and to the same unknown name. -/
def grown : List Mutation :=
  [sampleChunk "a", sampleChunk "b", sampleCall "a" "x", sampleCall "b" "x", sampleCall "a" "b"]

/-- The same graph, after the edges of a chunk were removed and added again. -/
def regrown : List Mutation :=
  [sampleChunk "b", sampleCall "a" "b", sampleCall "a" "x", sampleCall "b" "x", sampleChunk "a",
    .removeEdgesFrom "a", sampleCall "a" "x", sampleCall "a" "b"]

theorem detect_of_same_graph_regrown :
    (ofHistory grown).nodes ≠ (ofHistory regrown).nodes ∧
      (ofHistory grown).edges.map Edge.key ≠ (ofHistory regrown).edges.map Edge.key ∧
      ∀ (resolution : Float) (seed : Nat),
        (ofHistory grown).detect resolution seed = (ofHistory regrown).detect resolution seed := by
  have hnodes : (ofHistory grown).nodes.Perm (ofHistory regrown).nodes := by decide
  have hedges : (ofHistory grown).edges.Perm (ofHistory regrown).edges :=
    (List.Perm.swap _ _ _)
  exact ⟨by decide, by decide,
    (detect_of_same_graph grown regrown (fun _ => hnodes.mem_iff) (fun _ => hedges.mem_iff)).1⟩

end Store

end CodeGraph
