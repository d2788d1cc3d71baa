import CodeGraph.Proofs.Graph.Condensation
import CodeGraph.Proofs.Graph.Nodes
import CodeGraph.Subgraph.Basic

namespace CodeGraph.Store

/-! The order of the nodes of a subgraph. -/

/-- An edge inside a set of nodes leads from one to the other. -/
def Linked (store : Store) (ids : List String) (a b : String) : Prop :=
  a ∈ ids ∧ b ∈ ids ∧ ∃ edge ∈ store.edges, edge.source = a ∧ edge.target = b

/-- Edges inside a set of nodes lead from each one to the other. -/
def Joined (store : Store) (ids : List String) (a b : String) : Prop :=
  Relation.ReflTransGen (store.Linked ids) a b ∧ Relation.ReflTransGen (store.Linked ids) b a

theorem map_id_members (store : Store) (results others : List String) :
    (store.members results others).map Member.id =
      ((results ++ others).filter store.has).eraseDups := by
  rw [members, map_key_firstBy, firstBy_id_eq_eraseDups]
  congr 1
  simp [List.removeAll, List.filter_append, List.filter_map, Function.comp_def]

theorem nodup_map_id_members (store : Store) (results others : List String) :
    ((store.members results others).map Member.id).Nodup := by
  rw [members, map_key_firstBy]
  exact nodup_firstBy_id _ _

theorem has_of_mem_members {store : Store} {results others : List String} {member : Member}
    (hmem : member ∈ store.members results others) : store.has member.id = true := by
  have hid : member.id ∈ (store.members results others).map Member.id :=
    List.mem_map_of_mem hmem
  rw [map_id_members, List.mem_eraseDups] at hid
  exact (List.mem_filter.mp hid).2

theorem mem_innerEdges {store : Store} {ids : List String} {edge : Edge} :
    edge ∈ store.innerEdges ids ↔ edge ∈ store.edges ∧ edge.source ∈ ids ∧ edge.target ∈ ids := by
  simp only [innerEdges, edgesFrom, List.mem_flatMap, List.mem_filter, List.contains_iff_mem,
    beq_iff_eq]
  constructor
  · rintro ⟨id, hid, ⟨hedge, rfl⟩, htarget⟩
    exact ⟨hedge, hid, htarget⟩
  · rintro ⟨hedge, hsource, htarget⟩
    exact ⟨edge.source, hsource, ⟨hedge, rfl⟩, htarget⟩

/-! Nodes by their places -/

/-- The graph that is put in order, with each id given by its place. -/
def placed (store : Store) (ids : List String) : Digraph :=
  .ofLinks ids.length
    ((store.innerEdges ids).map fun edge => (ids.idxOf edge.source, ids.idxOf edge.target))

theorem mem_links_placed {store : Store} {ids : List String} {i j : Nat} :
    (i, j) ∈ (store.placed ids).links ↔
      (∃ a b, store.Linked ids a b ∧ ids.idxOf a = i ∧ ids.idxOf b = j) ∧ i ≠ j := by
  rw [placed, Digraph.mem_links_ofLinks]
  simp only [List.mem_map, mem_innerEdges, Prod.mk.injEq, Linked]
  refine and_congr_left fun _ => ?_
  constructor
  · rintro ⟨edge, ⟨hedge, hsource, htarget⟩, hi, hj⟩
    exact ⟨_, _, ⟨hsource, htarget, edge, hedge, rfl, rfl⟩, hi, hj⟩
  · rintro ⟨_, _, ⟨hsource, htarget, edge, hedge, rfl, rfl⟩, hi, hj⟩
    exact ⟨edge, ⟨hedge, hsource, htarget⟩, hi, hj⟩

theorem bounded_placed (store : Store) (ids : List String) : (store.placed ids).Bounded := by
  rintro ⟨i, j⟩ hlink
  obtain ⟨⟨a, b, ⟨ha, hb, -⟩, rfl, rfl⟩, -⟩ := mem_links_placed.mp hlink
  exact ⟨List.idxOf_lt_length_of_mem ha, List.idxOf_lt_length_of_mem hb⟩

theorem getD_idxOf {ids : List String} {a : String} (ha : a ∈ ids) :
    ids.getD (ids.idxOf a) "" = a := by
  have hlt := List.idxOf_lt_length_of_mem ha
  simp [List.getD_eq_getElem?_getD, List.getElem?_eq_getElem hlt]

theorem idxOf_getD {ids : List String} (hnodup : ids.Nodup) {i : Nat} (hi : i < ids.length) :
    ids.idxOf (ids.getD i "") = i := by
  rw [List.getD_eq_getElem?_getD, List.getElem?_eq_getElem hi, Option.getD_some]
  exact hnodup.idxOf_getElem i hi

theorem leads_placed {store : Store} {ids : List String} {a b : String}
    (hreach : Relation.ReflTransGen (store.Linked ids) a b) :
    Leads (store.placed ids).successors [] (ids.idxOf a) (ids.idxOf b) := by
  induction hreach with
  | refl => exact .refl
  | @tail b c _ hlinked ih =>
      by_cases hsame : ids.idxOf b = ids.idxOf c
      · exact hsame ▸ ih
      · have hlink := mem_links_placed.mpr ⟨⟨b, c, hlinked, rfl, rfl⟩, hsame⟩
        exact ih.tail (Digraph.mem_successors.mpr hlink) List.not_mem_nil

theorem reach_of_leads_placed {store : Store} {ids : List String} {i j : Nat}
    (hleads : Leads (store.placed ids).successors [] i j) :
    Relation.ReflTransGen (store.Linked ids) (ids.getD i "") (ids.getD j "") := by
  induction hleads with
  | refl => exact .refl
  | tail _ hstep ih =>
      obtain ⟨⟨a, b, hlinked, rfl, rfl⟩, -⟩ :=
        mem_links_placed.mp (Digraph.mem_successors.mp hstep.1)
      rw [getD_idxOf hlinked.1] at ih
      rw [getD_idxOf hlinked.2.1]
      exact ih.tail hlinked

theorem mutual_placed_iff {store : Store} {ids : List String} {a b : String} (ha : a ∈ ids)
    (hb : b ∈ ids) :
    Mutual (store.placed ids).successors (ids.idxOf a) (ids.idxOf b) ↔ store.Joined ids a b := by
  constructor
  · rintro ⟨hto, hfro⟩
    have hto := reach_of_leads_placed hto
    have hfro := reach_of_leads_placed hfro
    rw [getD_idxOf ha, getD_idxOf hb] at hto hfro
    exact ⟨hto, hfro⟩
  · rintro ⟨hto, hfro⟩
    exact ⟨leads_placed hto, leads_placed hfro⟩

/-! Blocks of ids -/

section Blocks

variable {store : Store} {ids : List String} {order : List Nat} {isCyclic : Bool}
  {blocks : List (List Nat)}

theorem map_getD_perm (hlayout : (store.placed ids).Layout order isCyclic blocks) :
    (order.map fun index => ids.getD index "").Perm ids := by
  have hnames := hlayout.perm_range.map fun index => ids.getD index ""
  rwa [placed, Digraph.ofLinks, map_getD_range] at hnames

theorem map_getD_sublist (hlayout : (store.placed ids).Layout order isCyclic blocks)
    (hcyclic : isCyclic = true) {block : List Nat} (hblock : block ∈ blocks) :
    (block.map fun index => ids.getD index "").Sublist ids := by
  have hnames := (hlayout.sublist_range hcyclic hblock).map fun index => ids.getD index ""
  rwa [placed, Digraph.ofLinks, map_getD_range] at hnames

theorem mem_map_getD_iff (hnodup : ids.Nodup)
    (hlayout : (store.placed ids).Layout order isCyclic blocks) {block : List Nat}
    (hblock : block ∈ blocks) {a b : String} (ha : a ∈ block.map fun index => ids.getD index "") :
    (b ∈ block.map fun index => ids.getD index "") ↔ b ∈ ids ∧ store.Joined ids a b := by
  have hmem : ∀ {c : String}, (c ∈ block.map fun index => ids.getD index "") ↔
      c ∈ ids ∧ ids.idxOf c ∈ block := by
    intro c
    rw [List.mem_map]
    constructor
    · rintro ⟨index, hindex, rfl⟩
      have hlt : index < ids.length := hlayout.lt_of_mem_block hblock hindex
      rw [idxOf_getD hnodup hlt]
      refine ⟨?_, hindex⟩
      rw [List.getD_eq_getElem?_getD, List.getElem?_eq_getElem hlt]
      exact List.getElem_mem hlt
    · rintro ⟨hc, hindex⟩
      exact ⟨ids.idxOf c, hindex, getD_idxOf hc⟩
  obtain ⟨ha, hindex⟩ := hmem.mp ha
  rw [hmem]
  refine and_congr_right fun hb => ?_
  rw [hlayout.grouped.mem_group block hblock _ hindex, mutual_placed_iff ha hb]

theorem sublist_map_getD (hlayout : (store.placed ids).Layout order isCyclic blocks) {a b : String}
    (hlinked : store.Linked ids a b) (hapart : ¬ store.Joined ids a b) :
    [a, b].Sublist (order.map fun index => ids.getD index "") := by
  have ha : a ∈ ids := hlinked.1
  have hb : b ∈ ids := hlinked.2.1
  have hmutual : ¬ Mutual (store.placed ids).successors (ids.idxOf a) (ids.idxOf b) :=
    fun hmutual => hapart ((mutual_placed_iff ha hb).mp hmutual)
  have hne : ids.idxOf a ≠ ids.idxOf b := by
    intro hsame
    exact hmutual (hsame ▸ .refl)
  have hpair := hlayout.links _ _ (mem_links_placed.mpr ⟨⟨a, b, hlinked, rfl, rfl⟩, hne⟩) hmutual
  have hnames := hpair.map fun index => ids.getD index ""
  rwa [List.map_cons, List.map_cons, List.map_nil, getD_idxOf ha, getD_idxOf hb] at hnames

end Blocks

section Subgraph

variable (store : Store) (results others : List String) (centrality? : Option (NameMap Float))
  (communities? : Option Communities) (options : SubgraphOptions)

theorem hasCycles_subgraph :
    (store.subgraph results others centrality? communities? options).hasCycles =
      (store.placed ((store.members results others).map Member.id)).ordered.2 :=
  rfl

/-- Each place in the order becomes the node with the id at that place. -/
theorem map_id_nodes_subgraph :
    let ids := (store.members results others).map Member.id
    (∀ index ∈ (store.placed ids).ordered.1, index < ids.length) →
    (store.subgraph results others centrality? communities? options).nodes.map
        (fun shown => shown.node.id) =
      (store.placed ids).ordered.1.map fun index => ids.getD index "" := by
  intro ids hplaces
  have hmap := congrFun (List.filterMap_eq_map (f := fun index => ids.getD index ""))
    (store.placed ids).ordered.1
  simp only [subgraph, List.map_filterMap]
  refine (List.filterMap_congr ?_).trans hmap
  intro index hindex
  have hlt : index < (store.members results others).length := by
    simpa [ids] using hplaces index hindex
  have hmember := List.getElem?_eq_getElem hlt
  have hhas := has_of_mem_members (List.getElem_mem hlt)
  obtain ⟨node, hnode⟩ := exists_node?_of_has hhas
  have hid := id_of_node? hnode
  simp [hmember, hnode, hid, ids]

end Subgraph

/-- The nodes of a subgraph stand in blocks, one for each strongly connected component, and edges
between different blocks lead forward. -/
theorem subgraph_ordered (store : Store) (results others : List String)
    (centrality? : Option (NameMap Float)) (communities? : Option Communities)
    (options : SubgraphOptions) :
    let known := ((results ++ others).filter store.has).eraseDups
    let part := store.subgraph results others centrality? communities? options
    let order := part.nodes.map fun shown => shown.node.id
    order.Perm known ∧
    ∃ blocks : List (List String), order = blocks.flatten ∧
      (∀ block ∈ blocks, block ≠ [] ∧
        ∀ a ∈ block, ∀ b, b ∈ block ↔ b ∈ known ∧ store.Joined known a b) ∧
      (part.hasCycles = true → ∀ block ∈ blocks, block.Sublist known) ∧
      (∀ edge ∈ store.edges, edge.source ∈ known → edge.target ∈ known →
        ¬ store.Joined known edge.source edge.target →
        [edge.source, edge.target].Sublist order) ∧
      (part.hasCycles = true ↔ ∃ block ∈ blocks, 2 ≤ block.length) := by
  intro known part order
  have hknown : (store.members results others).map Member.id = known :=
    map_id_members store results others
  have hnodup : known.Nodup := hknown ▸ nodup_map_id_members store results others
  obtain ⟨blocks, hlayout⟩ := Digraph.exists_layout_ordered (bounded_placed store known)
  have hplaces : ∀ index ∈ (store.placed known).ordered.1, index < known.length :=
    fun index hindex => List.mem_range.mp (hlayout.perm_range.mem_iff.mp hindex)
  have hcycles : part.hasCycles = (store.placed known).ordered.2 :=
    hknown ▸ hasCycles_subgraph store results others centrality? communities? options
  have horder : order = (store.placed known).ordered.1.map fun index => known.getD index "" := by
    have hnodes := map_id_nodes_subgraph store results others centrality? communities? options
    rw [hknown] at hnodes
    exact hnodes hplaces
  refine ⟨?_, blocks.map (·.map fun index => known.getD index ""), ?_, ?_, ?_, ?_, ?_⟩
  · exact horder ▸ map_getD_perm hlayout
  · rw [horder, ← hlayout.flatten_eq, List.map_flatten]
  · intro block hblock
    obtain ⟨places, hplaced, rfl⟩ := List.mem_map.mp hblock
    refine ⟨?_, fun a ha b => mem_map_getD_iff hnodup hlayout hplaced ha⟩
    rw [Ne, List.map_eq_nil_iff]
    exact hlayout.grouped.ne_nil places hplaced
  · intro hcyclic block hblock
    obtain ⟨places, hplaced, rfl⟩ := List.mem_map.mp hblock
    exact map_getD_sublist hlayout (hcycles ▸ hcyclic) hplaced
  · intro edge hedge hsource htarget hapart
    rw [horder]
    exact sublist_map_getD hlayout ⟨hsource, htarget, edge, hedge, rfl, rfl⟩ hapart
  · rw [hcycles, hlayout.cyclic_iff, Digraph.Cyclic, ← hlayout.grouped.exists_long_iff]
    simp [Nat.succ_le_iff]

end CodeGraph.Store
