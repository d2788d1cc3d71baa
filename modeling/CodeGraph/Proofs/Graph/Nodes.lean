import CodeGraph.Graph.Store
import CodeGraph.Proofs.Keyed

namespace CodeGraph

namespace Store

/-! The nodes of a store.  An id that is listed keeps its place whatever is added later. -/

def ids (store : Store) : List String :=
  store.nodes.map Node.id

/-- The map of a store is determined by its nodes. -/
theorem eq_of_lists {first second : Store} (hnodes : first.nodes = second.nodes)
    (hedges : first.edges = second.edges) : first = second := by
  have htable := first.inStep.eq_of_nodes second.inStep hnodes
  cases first
  cases second
  cases htable
  cases hedges
  rfl

theorem indexOf?_eq_idxOf? (store : Store) (id : String) :
    store.indexOf? id = store.ids.idxOf? id := by
  rw [indexOf?, store.inStep.get?_places, NodeTable.findIdx?_id_eq]
  rfl

theorem has_iff_mem_ids {store : Store} {id : String} :
    store.has id = true ↔ id ∈ store.ids := by
  rw [has, indexOf?_eq_idxOf?, List.isSome_idxOf?]

theorem has_of_nodes_eq {first second : Store} (hnodes : first.nodes = second.nodes)
    (id : String) : first.has id = second.has id := by
  rw [has, has, indexOf?_eq_idxOf?, indexOf?_eq_idxOf?, ids, ids, hnodes]

theorem indexOf?_of_prefix_ids {first second : Store} (hids : first.ids <+: second.ids)
    {id : String} {place : Nat} (hplace : first.indexOf? id = some place) :
    second.indexOf? id = some place := by
  obtain ⟨rest, hrest⟩ := hids
  rw [indexOf?_eq_idxOf?] at hplace ⊢
  rw [← hrest]
  simp only [List.idxOf?] at hplace ⊢
  rw [List.findIdx?_append, hplace]
  rfl

theorem has_of_prefix_ids {first second : Store} (hids : first.ids <+: second.ids) {id : String}
    (hhas : first.has id = true) : second.has id = true :=
  has_iff_mem_ids.mpr (hids.subset (has_iff_mem_ids.mp hhas))

/-- Where no id is listed twice, the place of an id is the place of the node that carries it. -/
theorem indexOf?_eq_some_iff {store : Store} (hnodup : store.ids.Nodup) {id : String}
    {place : Nat} :
    store.indexOf? id = some place ↔
      ∃ node, store.nodes[place]? = some node ∧ node.id = id := by
  have hcarries : (∃ node, store.nodes[place]? = some node ∧ node.id = id) ↔
      store.ids[place]? = some id := by
    simp [ids]
  rw [indexOf?_eq_idxOf?, hcarries, List.idxOf?_eq_some_iff]
  constructor
  · rintro ⟨hlt, hat, -⟩
    rw [List.getElem?_eq_getElem hlt, hat]
  · intro hat
    obtain ⟨hlt, hget⟩ := List.getElem?_eq_some_iff.mp hat
    refine ⟨hlt, hget, ?_⟩
    intro earlier hearlier heq
    have hsame : earlier = place :=
      (List.Nodup.getElem_inj_iff hnodup).mp (heq.trans hget.symm)
    omega

/-- The map of places lists the ids. -/
theorem places_perm_ids {store : Store} (hnodup : store.ids.Nodup) :
    (store.places.map Prod.fst).Perm store.ids := by
  have hkeys : (store.places.map Prod.fst).Nodup :=
    store.inStep.sorted.imp fun {a b} hlt => by
      rintro rfl
      exact String.lt_irrefl a hlt
  rw [List.perm_ext_iff_of_nodup hkeys hnodup]
  intro id
  rw [← has_iff_mem_ids, has, indexOf?, NameMap.get?, Option.isSome_map, List.find?_isSome]
  simp

/-- The place of an id leads to the node that a search of all nodes finds. -/
theorem node?_eq_lookup? (store : Store) : store.node? = Keyed.lookup? Node.id store.nodes := by
  funext id
  rw [node?, indexOf?, store.inStep.get?_places, Keyed.lookup?]
  generalize store.nodes = nodes
  induction nodes with
  | nil => rfl
  | cons node rest ih =>
      rw [List.findIdx?_cons, List.find?_cons]
      cases node.id == id with
      | true => rfl
      | false => simpa [Option.bind_map, Function.comp_def] using ih

theorem id_of_node? {store : Store} {id : String} {node : Node}
    (hnode : store.node? id = some node) : node.id = id := by
  rw [node?_eq_lookup?] at hnode
  exact Keyed.key_of_lookup? hnode

theorem exists_node?_of_has {store : Store} {id : String} (hhas : store.has id = true) :
    ∃ node, store.node? id = some node := by
  rw [node?_eq_lookup?]
  exact Option.isSome_iff_exists.mp (Keyed.lookup?_isSome_iff.mpr (has_iff_mem_ids.mp hhas))

/-- The nodes are the ids in order, each with what is found for it. -/
theorem nodes_eq_filterMap {store : Store} (hnodup : store.ids.Nodup) :
    store.nodes = store.ids.filterMap store.node? := by
  rw [node?_eq_lookup?]
  exact Keyed.eq_filterMap_lookup? hnodup

/-! Adding a node -/

theorem set_findIdx?_eq_put {nodes : List Node} {node : Node} {place : Nat}
    (hplace : (nodes.findIdx? fun other => other.id == node.id) = some place) :
    nodes.set place node = Keyed.put Node.id Keyed.latest node nodes := by
  induction nodes generalizing place with
  | nil => cases hplace
  | cons other rest ih =>
      rw [List.findIdx?_cons] at hplace
      rw [Keyed.put]
      by_cases hid : other.id = node.id
      · obtain rfl : 0 = place := by simpa [hid] using hplace
        rw [if_pos hid]
        rfl
      · obtain ⟨before, hbefore, rfl⟩ : ∃ before,
            (rest.findIdx? fun other => other.id == node.id) = some before ∧
              before + 1 = place := by
          simpa [hid] using hplace
        rw [if_neg hid, List.set_cons_succ, ih hbefore]

theorem nodes_addNode (store : Store) (node : Node) :
    (store.addNode node).nodes = Keyed.put Node.id Keyed.latest node store.nodes := by
  show (store.put node).nodes = _
  unfold NodeTable.put
  split
  · next place hplace =>
      rw [store.inStep.get?_places] at hplace
      exact set_findIdx?_eq_put hplace
  · next hfresh =>
      have hmissing : node.id ∉ store.nodes.map Node.id := by
        intro hmem
        have hhas : store.has node.id = true := has_iff_mem_ids.mpr hmem
        rw [has, indexOf?, hfresh] at hhas
        cases hhas
      exact (Keyed.put_of_not_mem hmissing).symm

@[simp] theorem edges_addNode (store : Store) (node : Node) :
    (store.addNode node).edges = store.edges := rfl

theorem ids_addNode (store : Store) (node : Node) :
    (store.addNode node).ids =
      if node.id ∈ store.ids then store.ids else store.ids ++ [node.id] := by
  rw [ids, nodes_addNode]
  exact Keyed.map_key_put Keyed.joinsKey_latest node store.nodes

theorem node?_addNode (store : Store) (node : Node) (id : String) :
    (store.addNode node).node? id = if node.id = id then some node else store.node? id := by
  rw [node?_eq_lookup?, nodes_addNode, Keyed.lookup?_put Keyed.joinsKey_latest, node?_eq_lookup?]
  split
  · cases Keyed.lookup? Node.id store.nodes id <;> rfl
  · rfl

theorem places_addNode_of_has {store : Store} {node : Node} (hhas : store.has node.id = true) :
    (store.addNode node).places = store.places := by
  obtain ⟨place, hplace⟩ := Option.isSome_iff_exists.mp hhas
  have hknown : store.places.get? node.id = some place := hplace
  show (store.put node).places = store.places
  rw [NodeTable.put, hknown]

theorem ids_prefix_addNode (store : Store) (node : Node) :
    store.ids <+: (store.addNode node).ids := by
  rw [ids_addNode]
  split
  · exact List.prefix_rfl
  · exact List.prefix_append _ _

theorem has_addNode (store : Store) (node : Node) : (store.addNode node).has node.id = true := by
  rw [has_iff_mem_ids, ids_addNode]
  split
  · assumption
  · simp

theorem nodup_ids_addNode {store : Store} (hnodup : store.ids.Nodup) (node : Node) :
    (store.addNode node).ids.Nodup := by
  rw [ids, nodes_addNode]
  exact Keyed.nodup_put Keyed.joinsKey_latest node hnodup

theorem nodes_foldl_addNode (store : Store) (nodes : List Node) :
    (nodes.foldl addNode store).nodes =
      Keyed.putAll Node.id Keyed.latest store.nodes nodes := by
  induction nodes generalizing store with
  | nil => rfl
  | cons node rest ih => rw [List.foldl_cons, ih, nodes_addNode]; rfl

theorem edges_foldl_addNode (store : Store) (nodes : List Node) :
    (nodes.foldl addNode store).edges = store.edges := by
  induction nodes generalizing store with
  | nil => rfl
  | cons node rest ih => rw [List.foldl_cons, ih, edges_addNode]

/-! Ends of edges -/

theorem ensure_of_has {store : Store} {id : String} (hhas : store.has id = true) :
    store.ensure id = store := by
  rw [ensure, if_pos hhas]

@[simp] theorem edges_ensure (store : Store) (id : String) :
    (store.ensure id).edges = store.edges := by
  unfold ensure
  split <;> rfl

theorem nodes_prefix_ensure (store : Store) (id : String) :
    store.nodes <+: (store.ensure id).nodes := by
  unfold ensure
  split
  · exact List.prefix_rfl
  · next hmissing =>
      have hfresh : (Node.phantom id).id ∉ store.nodes.map Node.id := fun hmem =>
        hmissing (has_iff_mem_ids.mpr hmem)
      rw [nodes_addNode, Keyed.put_of_not_mem hfresh]
      exact List.prefix_append _ _

theorem ids_prefix_ensure (store : Store) (id : String) :
    store.ids <+: (store.ensure id).ids :=
  (nodes_prefix_ensure store id).map Node.id

theorem has_ensure (store : Store) (id : String) : (store.ensure id).has id = true := by
  rw [ensure]
  split
  · assumption
  · exact has_addNode store (.phantom id)

/-- The phantom of an id that is among the given ones. -/
def phantomAmong (ids : List String) (id : String) : Option Node :=
  if id ∈ ids then some (.phantom id) else none

theorem phantomAmong_append (ids more : List String) (id : String) :
    phantomAmong (ids ++ more) id = (phantomAmong ids id).or (phantomAmong more id) := by
  unfold phantomAmong
  by_cases hmem : id ∈ ids <;> simp [hmem]

theorem node?_ensure (store : Store) (id other : String) :
    (store.ensure id).node? other = (store.node? other).or (phantomAmong [id] other) := by
  rw [ensure]
  split
  · next hhas =>
      by_cases hsame : other = id
      · subst hsame
        obtain ⟨node, hnode⟩ := exists_node?_of_has hhas
        rw [hnode, Option.some_or]
      · simp [phantomAmong, hsame]
  · next hmissing =>
      rw [node?_addNode, Node.id_phantom]
      split
      · next hsame =>
          subst hsame
          have hnone : store.node? id = none := by
            rw [node?_eq_lookup?]
            exact Keyed.lookup?_eq_none_iff.mpr fun hmem => hmissing (has_iff_mem_ids.mpr hmem)
          simp [hnone, phantomAmong]
      · next hother =>
          have hne : other ≠ id := fun heq => hother heq.symm
          simp [phantomAmong, hne]

theorem nodup_ids_ensure {store : Store} (hnodup : store.ids.Nodup) (id : String) :
    (store.ensure id).ids.Nodup := by
  rw [ensure]
  split
  · exact hnodup
  · exact nodup_ids_addNode hnodup (.phantom id)

end Store

end CodeGraph
