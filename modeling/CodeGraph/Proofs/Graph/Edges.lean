import CodeGraph.Proofs.Graph.Nodes

namespace CodeGraph

def Edge.ends (edge : Edge) : List String :=
  [edge.source, edge.target]

namespace Store

/-! The edges of a store. -/

def edge? (store : Store) (key : String × String × Relation) : Option Edge :=
  Keyed.lookup? Edge.key store.edges key

/-! Adding an edge -/

theorem putEdge_eq_put (edge : Edge) (edges : List Edge) :
    putEdge edge edges = Keyed.put Edge.key Edge.absorb edge edges := by
  induction edges with
  | nil => rfl
  | cons other rest ih => rw [putEdge, Keyed.put, ih]

theorem joinsKey_absorb : Keyed.JoinsKey Edge.key Edge.absorb :=
  fun _ _ hkey => hkey

theorem edges_addEdge (store : Store) (edge : Edge) :
    (store.addEdge edge).edges = putEdge edge store.edges := by
  simp [addEdge]

theorem nodes_prefix_addEdge (store : Store) (edge : Edge) :
    store.nodes <+: (store.addEdge edge).nodes :=
  (nodes_prefix_ensure store edge.source).trans (nodes_prefix_ensure _ edge.target)

theorem ids_prefix_addEdge (store : Store) (edge : Edge) :
    store.ids <+: (store.addEdge edge).ids :=
  (nodes_prefix_addEdge store edge).map Node.id

theorem has_source_addEdge (store : Store) (edge : Edge) :
    (store.addEdge edge).has edge.source = true :=
  has_of_prefix_ids (ids_prefix_ensure (store.ensure edge.source) edge.target)
    (has_ensure store edge.source)

theorem has_target_addEdge (store : Store) (edge : Edge) :
    (store.addEdge edge).has edge.target = true :=
  has_ensure (store.ensure edge.source) edge.target

theorem has_ends_of_prefix_ids {store later : Store} (hids : store.ids <+: later.ids) {edge : Edge}
    (hends : store.has edge.source = true ∧ store.has edge.target = true) :
    later.has edge.source = true ∧ later.has edge.target = true :=
  ⟨has_of_prefix_ids hids hends.1, has_of_prefix_ids hids hends.2⟩

theorem nodeTable_addEdge_of_has {store : Store} {edge : Edge}
    (hsource : store.has edge.source = true) (htarget : store.has edge.target = true) :
    (store.addEdge edge).toNodeTable = store.toNodeTable := by
  show ((store.ensure edge.source).ensure edge.target).toNodeTable = store.toNodeTable
  rw [ensure_of_has hsource, ensure_of_has htarget]

theorem nodes_addEdge_of_has {store : Store} {edge : Edge}
    (hsource : store.has edge.source = true) (htarget : store.has edge.target = true) :
    (store.addEdge edge).nodes = store.nodes :=
  congrArg NodeTable.nodes (nodeTable_addEdge_of_has hsource htarget)

theorem edge?_addEdge (store : Store) (edge : Edge) (key : String × String × Relation) :
    (store.addEdge edge).edge? key =
      if edge.key = key then some (((store.edge? key).map (Edge.absorb · edge)).getD edge)
      else store.edge? key := by
  rw [edge?, edges_addEdge, putEdge_eq_put, Keyed.lookup?_put joinsKey_absorb]
  rfl

/-- An edge of a new key comes last, and one of a known key changes nothing but the edge that is
there. -/
theorem mem_putEdge {edge other : Edge} {edges : List Edge} (hmem : other ∈ putEdge edge edges) :
    other = edge ∨ ∃ earlier ∈ edges, other = earlier ∨
      (earlier.key = edge.key ∧ other = earlier.absorb edge) := by
  rw [putEdge_eq_put] at hmem
  cases hfound : Keyed.lookup? Edge.key edges edge.key with
  | none =>
      rw [Keyed.put_of_not_mem (Keyed.lookup?_eq_none_iff.mp hfound), List.mem_append] at hmem
      rcases hmem with hold | hnew
      · exact .inr ⟨other, hold, .inl rfl⟩
      · exact .inl (List.mem_singleton.mp hnew)
  | some first =>
      obtain ⟨front, back, rfl, -, hput⟩ := Keyed.put_of_lookup? Edge.absorb hfound
      rw [hput] at hmem
      simp only [List.mem_append, List.mem_cons] at hmem
      rcases hmem with hfront | rfl | hback
      · exact .inr ⟨other, by simp [hfront], .inl rfl⟩
      · exact .inr ⟨first, by simp, .inr ⟨Keyed.key_of_lookup? hfound, rfl⟩⟩
      · exact .inr ⟨other, by simp [hback], .inl rfl⟩

/-! Adding edges one after the other -/

theorem edges_foldl_addEdge (store : Store) (edges : List Edge) :
    (edges.foldl addEdge store).edges =
      Keyed.putAll Edge.key Edge.absorb store.edges edges := by
  induction edges generalizing store with
  | nil => rfl
  | cons edge rest ih => rw [List.foldl_cons, ih, edges_addEdge, putEdge_eq_put]; rfl

theorem nodes_prefix_foldl_addEdge (store : Store) (edges : List Edge) :
    store.nodes <+: (edges.foldl addEdge store).nodes := by
  induction edges generalizing store with
  | nil => exact List.prefix_rfl
  | cons edge rest ih => exact (nodes_prefix_addEdge store edge).trans (ih (store.addEdge edge))

theorem ids_prefix_foldl_addEdge (store : Store) (edges : List Edge) :
    store.ids <+: (edges.foldl addEdge store).ids :=
  (nodes_prefix_foldl_addEdge store edges).map Node.id

theorem has_ends_foldl_addEdge (store : Store) {edges : List Edge} {edge : Edge}
    (hmem : edge ∈ edges) :
    (edges.foldl addEdge store).has edge.source = true ∧
      (edges.foldl addEdge store).has edge.target = true := by
  induction edges generalizing store with
  | nil => cases hmem
  | cons other rest ih =>
      rcases List.mem_cons.mp hmem with rfl | hrest
      · exact has_ends_of_prefix_ids (ids_prefix_foldl_addEdge (store.addEdge edge) rest)
          ⟨has_source_addEdge store edge, has_target_addEdge store edge⟩
      · exact ih (store.addEdge other) hrest

theorem node?_addEdge (store : Store) (edge : Edge) (id : String) :
    (store.addEdge edge).node? id = (store.node? id).or (phantomAmong edge.ends id) := by
  have hends : (store.addEdge edge).node? id =
      ((store.ensure edge.source).ensure edge.target).node? id := rfl
  rw [hends, node?_ensure, node?_ensure, Option.or_assoc, ← phantomAmong_append]
  rfl

theorem node?_foldl_addEdge (store : Store) (edges : List Edge) (id : String) :
    (edges.foldl addEdge store).node? id =
      (store.node? id).or (phantomAmong (edges.flatMap Edge.ends) id) := by
  induction edges generalizing store with
  | nil => simp [phantomAmong]
  | cons edge rest ih =>
      rw [List.foldl_cons, ih, node?_addEdge, Option.or_assoc, ← phantomAmong_append,
        List.flatMap_cons]

/-- Edges between known nodes leave the nodes alone. -/
theorem nodes_foldl_addEdge_of_has {store : Store} {edges : List Edge}
    (hends : ∀ edge ∈ edges, store.has edge.source = true ∧ store.has edge.target = true) :
    (edges.foldl addEdge store).nodes = store.nodes := by
  induction edges generalizing store with
  | nil => rfl
  | cons edge rest ih =>
      obtain ⟨hsource, htarget⟩ := hends edge List.mem_cons_self
      rw [List.foldl_cons, ih, nodes_addEdge_of_has hsource htarget]
      intro other hmem
      exact has_ends_of_prefix_ids (ids_prefix_addEdge store edge)
        (hends other (List.mem_cons_of_mem edge hmem))

/-! Removing the edges of a node -/

/-- The items with the last one in front. -/
def turned {α : Type} (items : List α) : List α :=
  items.getLast?.toList ++ items.dropLast

theorem turned_concat {α : Type} (items : List α) (last : α) :
    turned (items ++ [last]) = last :: items := by
  simp [turned]

theorem turned_perm {α : Type} (items : List α) : (turned items).Perm items := by
  rcases List.eq_nil_or_concat' items with rfl | ⟨others, last, rfl⟩
  · exact .refl _
  · rw [turned_concat]
    exact (List.perm_append_singleton last others).symm

/-- What stays when items are taken out from the last to the first.  Each one leaves its place to
the item that is the last at that time. -/
def swept {α : Type} (leaves : α → Bool) (items back : List α) : List α :=
  items.foldr (fun item kept => if leaves item then turned kept else item :: kept) back

theorem swept_perm {α : Type} (leaves : α → Bool) (items back : List α) :
    (swept leaves items back).Perm ((items.filter fun item => !leaves item) ++ back) := by
  induction items with
  | nil => exact .refl _
  | cons item rest ih =>
      rw [swept, List.foldr_cons, List.filter_cons]
      cases leaves item with
      | true => exact (turned_perm _).trans ih
      | false => exact ih.cons item

theorem swept_concat {α : Type} (leaves : α → Bool) (items : List α) (item : α) (back : List α) :
    swept leaves (items ++ [item]) back =
      swept leaves items (if leaves item then turned back else item :: back) := by
  simp [swept]

theorem removeAt_append (front back : List Edge) (edge : Edge) :
    removeAt (front ++ edge :: back) front.length = front ++ turned back := by
  rcases List.eq_nil_or_concat' back with rfl | ⟨others, last, rfl⟩
  · simp [removeAt, turned, List.set_append_right]
  · have hlast : (front ++ edge :: (others ++ [last])).getLast? = some last := by
      rw [← List.cons_append, ← List.append_assoc, List.getLast?_concat]
    have hset : (front ++ edge :: (others ++ [last])).set front.length last =
        (front ++ last :: others) ++ [last] := by
      simp [List.set_append_right]
    rw [removeAt, hlast, turned_concat]
    simp only [hset, List.dropLast_concat]

theorem outgoingIndices_concat (edges : List Edge) (edge : Edge) (id : String) :
    outgoingIndices (edges ++ [edge]) id =
      (if edge.source = id then [edges.length] else []) ++ outgoingIndices edges id := by
  have hearlier : ∀ index ∈ List.range edges.length,
      ((((edges ++ [edge])[index]?).map Edge.source) == some id) =
        ((edges[index]?.map Edge.source) == some id) := by
    intro index hindex
    rw [List.getElem?_append_left (List.mem_range.mp hindex)]
  rw [outgoingIndices, List.length_append, List.length_singleton, List.range_succ,
    List.filter_append, List.filter_congr hearlier, List.reverse_append]
  congr 1
  by_cases hsource : edge.source = id <;> simp [hsource]

/-- The edges leave from the last to the first, so that an edge moves only to a place that has been
dealt with. -/
theorem foldl_removeAt (id : String) (edges : List Edge) : ∀ back : List Edge,
    (outgoingIndices edges id).foldl removeAt (edges ++ back) =
      swept (fun edge => edge.source = id) edges back := by
  induction edges using List.reverseRecOn with
  | nil => intro back; rfl
  | append_singleton edges edge ih =>
      intro back
      rw [outgoingIndices_concat, List.append_assoc, List.singleton_append, swept_concat]
      by_cases hsource : edge.source = id
      · rw [if_pos hsource, List.singleton_append, List.foldl_cons, removeAt_append, ih,
          if_pos (decide_eq_true hsource)]
      · rw [if_neg hsource, List.nil_append, ih, decide_eq_false hsource, if_neg Bool.false_ne_true]

theorem edges_removeEdgesFrom (store : Store) (id : String) :
    (store.removeEdgesFrom id).edges = swept (fun edge => edge.source = id) store.edges [] := by
  simpa [removeEdgesFrom, dropEdgesFrom] using foldl_removeAt id store.edges []

theorem edges_removeEdgesFrom_perm (store : Store) (id : String) :
    (store.removeEdgesFrom id).edges.Perm (store.edges.filter fun edge => edge.source ≠ id) := by
  rw [edges_removeEdgesFrom]
  refine (swept_perm _ store.edges []).trans (.of_eq ?_)
  simp

theorem length_outgoingIndices (edges : List Edge) (id : String) :
    (outgoingIndices edges id).length = (edges.filter fun edge => edge.source = id).length := by
  induction edges using List.reverseRecOn with
  | nil => rfl
  | append_singleton edges edge ih =>
      rw [outgoingIndices_concat, List.length_append, ih, List.filter_append, List.length_append]
      by_cases hsource : edge.source = id
      · simp [hsource, Nat.add_comm]
      · simp [hsource]

theorem mem_edges_removeEdgesFrom {store : Store} {id : String} {edge : Edge} :
    edge ∈ (store.removeEdgesFrom id).edges ↔ edge ∈ store.edges ∧ edge.source ≠ id := by
  rw [(edges_removeEdgesFrom_perm store id).mem_iff, List.mem_filter, decide_eq_true_iff]

theorem nodup_keys_removeEdgesFrom {store : Store} (hnodup : (store.edges.map Edge.key).Nodup)
    (id : String) : ((store.removeEdgesFrom id).edges.map Edge.key).Nodup := by
  rw [((edges_removeEdgesFrom_perm store id).map Edge.key).nodup_iff]
  exact hnodup.sublist (List.filter_sublist.map Edge.key)

theorem edge?_removeEdgesFrom {store : Store} (hnodup : (store.edges.map Edge.key).Nodup)
    (id : String) (key : String × String × Relation) :
    (store.removeEdgesFrom id).edge? key = if key.1 = id then none else store.edge? key := by
  rw [edge?, Keyed.lookup?_perm (nodup_keys_removeEdgesFrom hnodup id)
    (edges_removeEdgesFrom_perm store id)]
  refine (Keyed.lookup?_filter Edge.key store.edges (fun key => key.1 ≠ id) key).trans ?_
  by_cases hsource : key.1 = id <;> simp [hsource, edge?]

end Store

end CodeGraph
