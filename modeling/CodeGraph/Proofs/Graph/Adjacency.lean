import CodeGraph.Graph.Adjacency
import CodeGraph.Proofs.Graph.DistanceSearch
import CodeGraph.Proofs.Graph.Distances
import CodeGraph.Proofs.Graph.History
import Mathlib.Algebra.Order.BigOperators.Group.List
import Mathlib.Order.Lattice.Nat

namespace CodeGraph

/-! The simple graph of a store: its nodes are numbered by their places, any number of edges from
one node to another are a single link, and edges from a node to itself are none. -/

/-- Some way leads from one node to the other. -/
def Reaches {α : Type} (step : α → α → Prop) (start node : α) : Prop :=
  ∃ count, Hops step start count node

theorem Reaches.exists_distance {α : Type} {step : α → α → Prop} {start node : α}
    (hreaches : Reaches step start node) : ∃ count, Distance step start count node := by
  obtain ⟨count, hops⟩ := hreaches
  obtain ⟨fewer, -, hdistance⟩ := hops.exists_distance
  exact ⟨fewer, hdistance⟩

theorem reaches_flip {α : Type} {step : α → α → Prop} {start node : α} :
    Reaches (flip step) node start ↔ Reaches step start node :=
  exists_congr fun _ => ⟨fun hops => hops.backward, fun hops => hops.backward⟩

/-- The fewest steps from one node to another, if there is a way at all. -/
noncomputable def hopCount {α : Type} (step : α → α → Prop) (start node : α) : Nat :=
  sInf {count | Hops step start count node}

theorem Distance.hopCount_eq {α : Type} {step : α → α → Prop} {start node : α} {count : Nat}
    (hdistance : Distance step start count node) : hopCount step start node = count := by
  have hmem : hopCount step start node ∈ {count | Hops step start count node} :=
    Nat.sInf_mem ⟨count, hdistance.reached⟩
  exact Nat.le_antisymm (Nat.sInf_le hdistance.reached) (hdistance.least _ hmem)

theorem Reaches.distance {α : Type} {step : α → α → Prop} {start node : α}
    (hreaches : Reaches step start node) :
    Distance step start (hopCount step start node) node := by
  obtain ⟨count, hdistance⟩ := hreaches.exists_distance
  rwa [hdistance.hopCount_eq]

namespace Store

/-- An edge leads from the node in one place to the node in another. -/
def Adjacent (store : Store) (i j : Nat) : Prop :=
  i ≠ j ∧ ∃ edge ∈ store.edges,
    store.indexOf? edge.source = some i ∧ store.indexOf? edge.target = some j

theorem indexOf?_eq_some_idxOf {store : Store} {id : String} (hhas : store.has id = true) :
    store.indexOf? id = some (store.ids.idxOf id) := by
  have hlt : store.ids.idxOf id < store.ids.length :=
    List.idxOf_lt_length_of_mem (has_iff_mem_ids.mp hhas)
  rw [indexOf?_eq_idxOf?, List.idxOf?, List.findIdx?_eq_guard_findIdx_lt, Option.guard_eq_some_iff]
  exact ⟨rfl, decide_eq_true hlt⟩

end Store

namespace Adjacency

/-! The lists at the ends of links -/

/-- The lists of a graph are those of some links, in their order. -/
structure Lists (graph : Adjacency) (size : Nat) (links : List (Nat × Nat)) : Prop where
  size_out : graph.out.size = size
  size_into : graph.into.size = size
  successors_eq : ∀ node,
    graph.successors node = (links.filter fun link => link.1 == node).map Prod.snd
  predecessors_eq : ∀ node,
    graph.predecessors node = (links.filter fun link => link.2 == node).map Prod.fst

theorem getD_replicate_nil (size node : Nat) :
    (Array.replicate size ([] : List Nat)).getD node [] = [] := by
  rw [Array.getD_eq_getD_getElem?]
  by_cases hlt : node < size <;> simp [hlt]

theorem getD_modify_append {lists : Array (List Nat)} {place : Nat} (hplace : place < lists.size)
    (item node : Nat) :
    (lists.modify place (· ++ [item])).getD node [] =
      lists.getD node [] ++ if place == node then [item] else [] := by
  rw [Array.getD_eq_getD_getElem?, Array.getD_eq_getD_getElem?, Array.getElem?_modify]
  by_cases hsame : place = node
  · subst hsame
    simp [hplace]
  · simp [hsame]

namespace Lists

variable {graph : Adjacency} {size : Nat} {links : List (Nat × Nat)}

theorem unlinked (size : Nat) : Lists (unlinked size) size [] where
  size_out := Array.size_replicate
  size_into := Array.size_replicate
  successors_eq := getD_replicate_nil size
  predecessors_eq := getD_replicate_nil size

theorem snoc (hlists : Lists graph size links) {link : Nat × Nat} (hfirst : link.1 < size)
    (hsecond : link.2 < size) :
    Lists
      { out := graph.out.modify link.1 (· ++ [link.2])
        into := graph.into.modify link.2 (· ++ [link.1]) }
      size (links ++ [link]) where
  size_out := (Array.size_modify ..).trans hlists.size_out
  size_into := (Array.size_modify ..).trans hlists.size_into
  successors_eq := by
    intro node
    rw [successors, getD_modify_append (hlists.size_out.symm ▸ hfirst), List.filter_append,
      List.map_append, ← hlists.successors_eq, successors, List.filter_singleton]
    cases link.1 == node <;> rfl
  predecessors_eq := by
    intro node
    rw [predecessors, getD_modify_append (hlists.size_into.symm ▸ hsecond), List.filter_append,
      List.map_append, ← hlists.predecessors_eq, predecessors, List.filter_singleton]
    cases link.2 == node <;> rfl

/-- Links are added once, and those of a node to itself not at all. -/
theorem foldl_addLink (hlists : Lists graph size links) {more : List (Nat × Nat)}
    (hmore : ∀ link ∈ more, link.1 < size ∧ link.2 < size) :
    Lists (more.foldl addLink (graph, links)).1 size
      (links ++ firstBy id links (more.filter fun link => link.1 != link.2)) := by
  induction more generalizing graph links with
  | nil => simpa [firstBy] using hlists
  | cons link rest ih =>
      rw [List.forall_mem_cons] at hmore
      rw [List.foldl_cons, addLink]
      by_cases hloop : link.1 = link.2
      · simpa [hloop] using ih hlists hmore.2
      · rw [List.filter_cons_of_pos (by simpa using hloop)]
        by_cases hknown : link ∈ links
        · rw [firstBy_id_cons_of_mem hknown]
          simpa [hknown] using ih hlists hmore.2
        · rw [firstBy_id_cons_of_new hknown, List.append_cons]
          simpa [hloop, hknown] using ih (hlists.snoc hmore.1.1 hmore.1.2) hmore.2

end Lists

/-! The steps of a graph -/

/-- The links of a graph are the steps, each of them once. -/
structure Follows (graph : Adjacency) (step : Nat → Nat → Prop) : Prop where
  mem_successors : ∀ before after, after ∈ graph.successors before ↔ step before after
  mem_predecessors : ∀ after before, before ∈ graph.predecessors after ↔ flip step after before
  lt_size : ∀ before after, step before after → before < graph.size ∧ after < graph.size
  nodup_successors : ∀ node, (graph.successors node).Nodup
  nodup_predecessors : ∀ node, (graph.predecessors node).Nodup

/-- The links of one end lead to other ends only once. -/
theorem nodup_ends {links : List (Nat × Nat)} (hlinks : links.Nodup) {near far : Nat × Nat → Nat}
    (hends : ∀ link other, near link = near other → far link = far other → link = other)
    (node : Nat) : ((links.filter fun link => near link == node).map far).Nodup := by
  apply List.Nodup.map_on ?_ (hlinks.filter _)
  intro link hlink other hother hsame
  have hfirst : near link = node := beq_iff_eq.mp (List.mem_filter.mp hlink).2
  have hsecond : near other = node := beq_iff_eq.mp (List.mem_filter.mp hother).2
  exact hends link other (hfirst.trans hsecond.symm) hsame

theorem Lists.follows {graph : Adjacency} {size : Nat} {links : List (Nat × Nat)}
    (hlists : Lists graph size links) (hnodup : links.Nodup)
    (hlinks : ∀ link ∈ links, link.1 < size ∧ link.2 < size) :
    graph.Follows fun before after => (before, after) ∈ links where
  mem_successors := by simp [hlists.successors_eq]
  mem_predecessors := by simp [hlists.predecessors_eq, flip]
  lt_size := by
    intro before after hlink
    rw [Adjacency.size, hlists.size_out]
    exact hlinks _ hlink
  nodup_successors := by
    intro node
    rw [hlists.successors_eq]
    exact nodup_ends hnodup (fun _ _ hfirst hsecond => Prod.ext hfirst hsecond) node
  nodup_predecessors := by
    intro node
    rw [hlists.predecessors_eq]
    exact nodup_ends hnodup (fun _ _ hsecond hfirst => Prod.ext hfirst hsecond) node

/-! The graph of a store -/

/-- The links of a store, each of them once. -/
def linksOf (store : Store) : List (Nat × Nat) :=
  firstBy id [] ((store.edges.map fun edge =>
    (store.ids.idxOf edge.source, store.ids.idxOf edge.target)).filter
      fun link => link.1 != link.2)

theorem mem_linksOf {store : Store} (hsound : store.Sound) {i j : Nat} :
    (i, j) ∈ linksOf store ↔ store.Adjacent i j := by
  simp only [linksOf, mem_firstBy_id, List.mem_filter, List.mem_map, bne_iff_ne, List.not_mem_nil,
    not_false_eq_true, and_true, Store.Adjacent]
  rw [and_comm]
  refine and_congr_right fun _ => exists_congr fun edge => and_congr_right fun hedge => ?_
  obtain ⟨hsource, htarget⟩ := hsound.ends_known edge hedge
  rw [Store.indexOf?_eq_some_idxOf hsource, Store.indexOf?_eq_some_idxOf htarget, Prod.mk.injEq,
    Option.some.injEq, Option.some.injEq]

section OfStore

variable {store : Store} (hsound : store.Sound)

include hsound

theorem idxOf_ends_lt {edge : Edge} (hedge : edge ∈ store.edges) :
    store.ids.idxOf edge.source < store.nodes.length ∧
      store.ids.idxOf edge.target < store.nodes.length := by
  obtain ⟨hsource, htarget⟩ := hsound.ends_known edge hedge
  rw [← List.length_map Node.id]
  exact ⟨List.idxOf_lt_length_of_mem (Store.has_iff_mem_ids.mp hsource),
    List.idxOf_lt_length_of_mem (Store.has_iff_mem_ids.mp htarget)⟩

theorem lists_ofStore : Lists (ofStore store) store.nodes.length (linksOf store) := by
  have hlinks : ∀ link ∈ store.edges.map fun edge =>
      (store.ids.idxOf edge.source, store.ids.idxOf edge.target),
      link.1 < store.nodes.length ∧ link.2 < store.nodes.length := by
    intro link hlink
    obtain ⟨edge, hedge, rfl⟩ := List.mem_map.mp hlink
    exact idxOf_ends_lt hsound hedge
  have hlists := (Lists.unlinked store.nodes.length).foldl_addLink hlinks
  rw [ofStore, List.length_map]
  exact hlists

@[simp] theorem size_ofStore : (ofStore store).size = store.nodes.length :=
  (lists_ofStore hsound).size_out

theorem nodes_ofStore : (ofStore store).nodes = List.range store.nodes.length := by
  rw [nodes, size_ofStore hsound]

/-- The graph of a store follows its edges. -/
theorem follows_ofStore : (ofStore store).Follows store.Adjacent := by
  have hlinks : ∀ link ∈ linksOf store,
      link.1 < store.nodes.length ∧ link.2 < store.nodes.length := by
    intro link hlink
    obtain ⟨edge, hedge, rfl⟩ :=
      List.mem_map.mp (List.mem_of_mem_filter (mem_firstBy_id.mp hlink).1)
    exact idxOf_ends_lt hsound hedge
  have hfollows := (lists_ofStore hsound).follows (nodup_firstBy_id _ _) hlinks
  simpa only [mem_linksOf hsound] using hfollows

end OfStore

end Adjacency

/-! How far a search goes -/

section Reach

variable {next : Nat → List Nat} {step : Nat → Nat → Prop} {size start node : Nat}
variable (hnext : ∀ before after, after ∈ next before ↔ step before after)
variable (hbound : ∀ before after, step before after → after < size)

include hnext

theorem listsDistances_reach (size start : Nat) :
    ListsDistances step start 1 size (reach next size start) := by
  rw [reach, scannedLevels_eq_levelsUpTo]
  exact listsDistances_levels (expands_flatMap hnext) size

include hbound

/-- Each level holds a node that is in no other. -/
theorem length_reach_lt (hstart : start < size) : (reach next size start).length < size := by
  have hlists := listsDistances_reach hnext size start
  have hlevels : (reach next size start).length ≤ (reach next size start).flatten.length := by
    rw [List.length_flatten, ← List.length_map List.length]
    apply List.length_le_sum_of_one_le
    intro length hlength
    obtain ⟨level, hlevel, rfl⟩ := List.mem_map.mp hlength
    exact List.length_pos_iff.mpr (hlists.ne_nil level hlevel)
  have hnodup : (start :: (reach next size start).flatten).Nodup :=
    List.nodup_cons.mpr ⟨hlists.start_not_mem_flatten Nat.one_pos, hlists.nodup_flatten⟩
  have hinside : start :: (reach next size start).flatten ⊆ List.range size := by
    intro other hother
    rw [List.mem_range]
    rcases List.mem_cons.mp hother with rfl | hlater
    · exact hstart
    · obtain ⟨place, -, hdistance⟩ := hlists.mem_flatten_iff.mp hlater
      rw [Nat.add_comm] at hdistance
      obtain ⟨before, -, hstep⟩ := hdistance.exists_before
      exact hbound before other hstep
  have hlength := (hnodup.subperm hinside).length_le
  rw [List.length_cons, List.length_range] at hlength
  omega

theorem distance_le_length_reach (hstart : start < size) {count : Nat}
    (hdistance : Distance step start count node) : count ≤ (reach next size start).length := by
  by_contra hmore
  have hlists := listsDistances_reach hnext size start
  have hle : 1 + (reach next size start).length ≤ count := by omega
  obtain ⟨nearer, hnearer⟩ := hdistance.exists_nearer hle
  exact hlists.complete (length_reach_lt hnext hbound hstart) nearer hnearer

theorem distance_lt_size (hstart : start < size) {count : Nat}
    (hdistance : Distance step start count node) : count < size :=
  (distance_le_length_reach hnext hbound hstart hdistance).trans_lt
    (length_reach_lt hnext hbound hstart)

/-- The number of levels is not what ends a search. -/
theorem mem_flatten_reach (hstart : start < size) :
    node ∈ (reach next size start).flatten ↔ node ≠ start ∧ Reaches step start node := by
  rw [(listsDistances_reach hnext size start).mem_flatten_iff, exists_distance_iff]
  refine and_congr_right fun _ => ⟨?_, ?_⟩
  · rintro ⟨count, -, hops⟩
    exact ⟨count, hops⟩
  · intro hreaches
    obtain ⟨count, hdistance⟩ := hreaches.exists_distance
    exact ⟨count, (distance_lt_size hnext hbound hstart hdistance).le, hdistance.reached⟩

end Reach

end CodeGraph
