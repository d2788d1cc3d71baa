import CodeGraph.Proofs.Graph.History
import CodeGraph.Proofs.Subgraph.Order

namespace CodeGraph

/-! The edges of a subgraph: those between its nodes, and some of those that cross its boundary. -/

/-! Lists that are grouped by a key -/

section Grouping

variable {α κ : Type} [BEq κ] [LawfulBEq κ]

theorem perm_flatMap_of_nodup {keys : List κ} (hnodup : keys.Nodup) (key : α → κ)
    (items : List α) :
    (keys.flatMap fun wanted => items.filter fun item => key item == wanted).Perm
      (items.filter fun item => keys.contains (key item)) := by
  induction keys with
  | nil => simp
  | cons wanted rest ih =>
      rw [List.nodup_cons] at hnodup
      let known := items.filter fun item => (wanted :: rest).contains (key item)
      have hfirst : (items.filter fun item => key item == wanted) =
          known.filter fun item => key item == wanted := by
        rw [List.filter_filter]
        apply List.filter_congr
        intro item _
        by_cases hkey : key item = wanted <;> simp [hkey]
      have hothers : (items.filter fun item => rest.contains (key item)) =
          known.filter fun item => !(key item == wanted) := by
        rw [List.filter_filter]
        apply List.filter_congr
        intro item _
        by_cases hkey : key item = wanted
        · simp [hkey, hnodup.1]
        · simp [hkey]
      rw [List.flatMap_cons]
      refine ((ih hnodup.2).append_left _).trans ?_
      rw [hfirst, hothers]
      exact List.filter_append_perm _ known

/-- Of a part for each of the keys, the items of one key are its part. -/
theorem filter_key_flatMap (key : α → κ) {keys : List κ} (hnodup : keys.Nodup) {parts : κ → List α}
    (hparts : ∀ wanted, ∀ item ∈ parts wanted, key item = wanted) (wanted : κ) :
    ((keys.flatMap parts).filter fun item => key item == wanted) =
      if keys.contains wanted then parts wanted else [] := by
  induction keys with
  | nil => rfl
  | cons other rest ih =>
      rw [List.nodup_cons] at hnodup
      rw [List.flatMap_cons, List.filter_append, ih hnodup.2]
      by_cases hsame : other = wanted
      · subst hsame
        have hall : (parts other).filter (fun item => key item == other) = parts other := by
          rw [List.filter_eq_self]
          intro item hitem
          exact beq_iff_eq.mpr (hparts other item hitem)
        simp [hall, hnodup.1]
      · have hnone : (parts other).filter (fun item => key item == wanted) = [] := by
          rw [List.filter_eq_nil_iff]
          intro item hitem hkey
          exact hsame ((hparts other item hitem).symm.trans (beq_iff_eq.mp hkey))
        have hne : wanted ≠ other := fun heq => hsame heq.symm
        simp [hnone, hne]

end Grouping

/-! Members -/

theorem lookup?_of_mem_firstBy {α κ : Type} [DecidableEq κ] {key : α → κ} {seen : List κ}
    {items : List α} {item : α} (hmem : item ∈ firstBy key seen items) :
    Keyed.lookup? key items (key item) = some item := by
  have hunseen : ∀ {seen : List κ} {items : List α}, item ∈ firstBy key seen items →
      key item ∉ seen := by
    intro seen items hmem
    have hkey := List.mem_map_of_mem (f := key) hmem
    rw [map_key_firstBy] at hkey
    exact (mem_firstBy_id.mp hkey).2
  induction items generalizing seen with
  | nil => cases hmem
  | cons other rest ih =>
      rw [Keyed.lookup?_cons]
      rw [firstBy] at hmem
      split at hmem
      · next hseen =>
          have hne : key other ≠ key item := by
            intro heq
            exact hunseen hmem (heq ▸ List.contains_iff_mem.mp hseen)
          rw [if_neg hne]
          exact ih hmem
      · rcases List.mem_cons.mp hmem with rfl | hlater
        · rw [if_pos rfl]
        · have hne : key other ≠ key item := by
            intro heq
            exact hunseen hlater (heq ▸ List.mem_cons_self)
          rw [if_neg hne]
          exact ih hlater

/-- The end of an edge at the node that lists it on the boundary. -/
def Direction.near : Direction → Edge → String
  | outgoing => Edge.source
  | incoming => Edge.target

def Direction.far : Direction → Edge → String
  | outgoing => Edge.target
  | incoming => Edge.source

namespace Store

theorem isResult_of_mem_members {store : Store} {results others : List String} {member : Member}
    (hmem : member ∈ store.members results others) :
    member.isResult = true ↔ member.id ∈ results := by
  have hhas := has_of_mem_members hmem
  have hfound := lookup?_of_mem_firstBy hmem
  rw [Keyed.lookup?, List.filter_append, List.find?_append] at hfound
  -- results are listed before the others, so that they are found first
  cases hfirst : ((results.map fun id => Member.mk id true).filter
      fun member => store.has member.id).find? (fun item => item.id == member.id) with
  | some first =>
      rw [hfirst, Option.some_or] at hfound
      cases hfound
      have hlisted := List.mem_of_mem_filter (List.mem_of_find?_eq_some hfirst)
      obtain ⟨id, hid, rfl⟩ := List.mem_map.mp hlisted
      exact ⟨fun _ => hid, fun _ => rfl⟩
  | none =>
      rw [hfirst, Option.none_or] at hfound
      have hlisted := List.mem_of_mem_filter (List.mem_of_find?_eq_some hfound)
      obtain ⟨id, -, rfl⟩ := List.mem_map.mp hlisted
      refine ⟨fun hresult => absurd hresult Bool.false_ne_true, fun hid => ?_⟩
      rw [List.find?_eq_none] at hfirst
      refine absurd (beq_self_eq_true id) (hfirst ⟨id, true⟩ ?_)
      exact List.mem_filter.mpr ⟨List.mem_map_of_mem hid, hhas⟩

/-- The results among the members. -/
def resultIds (store : Store) (results others : List String) : List String :=
  ((store.members results others).filter Member.isResult).map Member.id

theorem mem_resultIds {store : Store} {results others : List String} {id : String} :
    id ∈ store.resultIds results others ↔ id ∈ results ∧ store.has id = true := by
  rw [resultIds, List.mem_map]
  constructor
  · rintro ⟨member, hmember, rfl⟩
    obtain ⟨hmem, hresult⟩ := List.mem_filter.mp hmember
    exact ⟨(isResult_of_mem_members hmem).mp hresult, has_of_mem_members hmem⟩
  · rintro ⟨hid, hhas⟩
    have hknown : id ∈ (store.members results others).map Member.id := by
      rw [map_id_members, List.mem_eraseDups, List.mem_filter, List.mem_append]
      exact ⟨.inl hid, hhas⟩
    obtain ⟨member, hmem, rfl⟩ := List.mem_map.mp hknown
    exact ⟨member, List.mem_filter.mpr ⟨hmem, (isResult_of_mem_members hmem).mpr hid⟩, rfl⟩

theorem resultIds_sublist (store : Store) (results others : List String) :
    (store.resultIds results others).Sublist ((store.members results others).map Member.id) :=
  List.filter_sublist.map Member.id

/-! Edges between the nodes -/

theorem innerEdges_perm (store : Store) {ids : List String} (hnodup : ids.Nodup) :
    (store.innerEdges ids).Perm
      (store.edges.filter fun edge => ids.contains edge.source && ids.contains edge.target) := by
  have hinner : store.innerEdges ids = ids.flatMap fun id =>
      (store.edges.filter fun edge => ids.contains edge.target).filter
        fun edge => edge.source == id := by
    simp only [innerEdges, edgesFrom, List.filter_filter, Bool.and_comm]
  rw [hinner]
  refine (perm_flatMap_of_nodup hnodup Edge.source _).trans (.of_eq ?_)
  rw [List.filter_filter]

/-! Edges across the boundary -/

/-- Some edges with their near end at a result and their far end outside, from each result in
turn. -/
def crossing (store : Store) (direction : Direction) (limit : Nat) (ids results : List String) :
    List Edge :=
  results.flatMap fun id =>
    ((store.edges.filter fun edge => direction.near edge == id).filter
      fun edge => !ids.contains (direction.far edge)).take limit

theorem boundaryEdges_eq (store : Store) (limit : Nat) (results others : List String) :
    store.boundaryEdges limit (store.members results others) =
      [Direction.outgoing, .incoming].flatMap fun direction =>
        (store.crossing direction limit ((store.members results others).map Member.id)
          (store.resultIds results others)).map (·, direction) := by
  simp only [List.flatMap_cons, List.flatMap_nil, List.append_nil, crossing, List.map_flatMap]
  rfl

theorem map_fst_boundaryEdges (store : Store) (limit : Nat) (results others : List String) :
    (store.boundaryEdges limit (store.members results others)).map Prod.fst =
      let ids := (store.members results others).map Member.id
      let kept := store.resultIds results others
      store.crossing .outgoing limit ids kept ++ store.crossing .incoming limit ids kept := by
  have hedges : ∀ (direction : Direction) (edges : List Edge),
      (edges.map (·, direction)).map Prod.fst = edges := by
    intro direction edges
    rw [List.map_map]
    exact List.map_id edges
  rw [boundaryEdges_eq, List.map_flatMap]
  simp only [hedges, List.flatMap_cons, List.flatMap_nil, List.append_nil]

section Crossing

variable (store : Store) (direction : Direction) (limit : Nat) {ids results : List String}

theorem filter_crossing (hnodup : results.Nodup) (id : String) :
    ((store.crossing direction limit ids results).filter fun edge => direction.near edge == id) =
      if results.contains id then
        ((store.edges.filter fun edge => direction.near edge == id).filter
          fun edge => !ids.contains (direction.far edge)).take limit
      else [] := by
  refine filter_key_flatMap direction.near hnodup (fun wanted edge hedge => ?_) id
  have hnear := List.mem_of_mem_filter (List.mem_of_mem_take hedge)
  exact beq_iff_eq.mp (List.mem_filter.mp hnear).2

theorem crossing_subperm (hnodup : results.Nodup) (hresults : results ⊆ ids) :
    (store.crossing direction limit ids results).Subperm
      (store.edges.filter fun edge =>
        ids.contains (direction.near edge) && !ids.contains (direction.far edge)) := by
  let outside := store.edges.filter fun edge => !ids.contains (direction.far edge)
  have hparts : (store.crossing direction limit ids results).Sublist
      (results.flatMap fun id => outside.filter fun edge => direction.near edge == id) := by
    apply List.Sublist.flatMap_right
    intro id _
    rw [List.filter_comm]
    exact List.take_sublist _ _
  have hmore : (outside.filter fun edge => results.contains (direction.near edge)).Sublist
      (store.edges.filter fun edge =>
        ids.contains (direction.near edge) && !ids.contains (direction.far edge)) := by
    rw [List.filter_filter]
    apply List.monotone_filter_right
    intro edge hedge
    rw [Bool.and_eq_true, List.contains_iff_mem] at hedge ⊢
    exact ⟨hresults hedge.1, hedge.2⟩
  exact hparts.subperm.trans
    ((perm_flatMap_of_nodup hnodup direction.near outside).subperm.trans hmore.subperm)

end Crossing

/-- Edges inside, edges that lead out and edges that lead in are different edges. -/
theorem filter_ends_subperm (store : Store) (ids : List String) :
    ((store.edges.filter fun edge => ids.contains edge.source && ids.contains edge.target) ++
      ((store.edges.filter fun edge => ids.contains edge.source && !ids.contains edge.target) ++
        store.edges.filter fun edge =>
          ids.contains edge.target && !ids.contains edge.source)).Subperm store.edges := by
  let leaving := store.edges.filter fun edge => ids.contains edge.source
  have hleaving :
      ((store.edges.filter fun edge => ids.contains edge.source && ids.contains edge.target) ++
        store.edges.filter fun edge =>
          ids.contains edge.source && !ids.contains edge.target).Perm leaving := by
    have hsplit := List.filter_append_perm (fun edge => ids.contains edge.target) leaving
    simpa only [leaving, List.filter_filter, Bool.and_comm] using hsplit
  have harriving : (store.edges.filter fun edge =>
      ids.contains edge.target && !ids.contains edge.source).Sublist
        (store.edges.filter fun edge => !ids.contains edge.source) := by
    apply List.monotone_filter_right
    intro edge hedge
    exact (Bool.and_eq_true_iff.mp hedge).2
  rw [← List.append_assoc]
  refine (hleaving.subperm.append harriving.subperm).trans ?_
  exact (List.filter_append_perm (fun edge => ids.contains edge.source) store.edges).subperm

/-! The whole -/

/-- How many edges a node may add to the boundary in each direction. -/
def allowance (store : Store) (options : SubgraphOptions) (results : List String) (id : String) :
    Nat :=
  if options.includesBoundary && (results.contains id && store.has id) then
    options.maxBoundaryEdges
  else 0

section Subgraph

variable (store : Store) (results others : List String) (centrality? : Option (NameMap Float))
  (communities? : Option Communities) (options : SubgraphOptions)

theorem boundary_subgraph :
    (store.subgraph results others centrality? communities? options).boundary =
      if options.includesBoundary then
        store.boundaryEdges options.maxBoundaryEdges (store.members results others)
      else [] :=
  rfl

theorem nodup_resultIds : (store.resultIds results others).Nodup :=
  (nodup_map_id_members store results others).sublist (resultIds_sublist store results others)

theorem filter_boundaryEdges (limit : Nat) (direction : Direction) (id : String) :
    ((store.boundaryEdges limit (store.members results others)).filter fun shown =>
      direction.near shown.1 == id && shown.2 == direction) =
      ((store.crossing direction limit ((store.members results others).map Member.id)
        (store.resultIds results others)).filter
          fun edge => direction.near edge == id).map (·, direction) := by
  have hdirections : [Direction.outgoing, .incoming].Nodup := by decide
  have hall : [Direction.outgoing, .incoming].contains direction = true := by
    cases direction <;> decide
  rw [← List.filter_filter, boundaryEdges_eq, filter_key_flatMap Prod.snd hdirections, hall,
    if_pos rfl, List.filter_map]
  · rfl
  · intro wanted shown hshown
    obtain ⟨edge, -, rfl⟩ := List.mem_map.mp hshown
    rfl

theorem filter_boundary_subgraph (direction : Direction) (id : String) :
    ((store.subgraph results others centrality? communities? options).boundary.filter fun shown =>
      direction.near shown.1 == id && shown.2 == direction) =
      (((store.edges.filter fun edge => direction.near edge == id).filter
        fun edge => !((store.members results others).map Member.id).contains
          (direction.far edge)).take (store.allowance options results id)).map (·, direction) := by
  have hresult : (store.resultIds results others).contains id =
      (results.contains id && store.has id) := by
    rw [Bool.eq_iff_iff, Bool.and_eq_true, List.contains_iff_mem, List.contains_iff_mem,
      mem_resultIds]
  rw [boundary_subgraph, allowance]
  cases options.includesBoundary with
  | false => simp
  | true =>
      rw [if_pos rfl, filter_boundaryEdges,
        filter_crossing store direction _ (store.nodup_resultIds results others), hresult]
      cases results.contains id && store.has id <;> simp

theorem isResult_of_mem_nodes :
    ∀ shown ∈ (store.subgraph results others centrality? communities? options).nodes,
      shown.isResult = true ↔ shown.node.id ∈ results := by
  intro shown hshown
  simp only [subgraph, List.mem_filterMap] at hshown
  obtain ⟨index, -, hshown⟩ := hshown
  obtain ⟨member, hmember, hshown⟩ := Option.bind_eq_some_iff.mp hshown
  obtain ⟨node, hnode, hshown⟩ := Option.bind_eq_some_iff.mp hshown
  cases hshown
  have hid := id_of_node? hnode
  rw [hid]
  exact isResult_of_mem_members (List.mem_of_getElem? hmember)

theorem edges_append_boundary_subperm :
    let part := store.subgraph results others centrality? communities? options
    (part.edges ++ part.boundary.map Prod.fst).Subperm store.edges := by
  intro part
  let ids := (store.members results others).map Member.id
  have hinner := (store.innerEdges_perm (nodup_map_id_members store results others)).subperm
  have hcrossing := fun direction => store.crossing_subperm direction options.maxBoundaryEdges
    (store.nodup_resultIds results others) (resultIds_sublist store results others).subset
  have hboundary : (part.boundary.map Prod.fst).Subperm
      ((store.edges.filter fun edge => ids.contains edge.source && !ids.contains edge.target) ++
        store.edges.filter fun edge => ids.contains edge.target && !ids.contains edge.source) := by
    rw [boundary_subgraph]
    split
    · rw [map_fst_boundaryEdges]
      exact (hcrossing .outgoing).append (hcrossing .incoming)
    · exact List.nil_subperm
  exact (hinner.append hboundary).trans (store.filter_ends_subperm ids)

end Subgraph

theorem subgraph_edges_and_boundary (store : Store) (results others : List String)
    (centrality? : Option (NameMap Float)) (communities? : Option Communities)
    (options : SubgraphOptions) :
    let known := ((results ++ others).filter store.has).eraseDups
    let part := store.subgraph results others centrality? communities? options
    part.edges.Perm
      (store.edges.filter fun edge => known.contains edge.source && known.contains edge.target) ∧
    -- what each node adds to the boundary
    (∀ id,
      (part.boundary.filter fun shown => shown.1.source == id && shown.2 == .outgoing) =
        (((store.edgesFrom id).filter fun edge => !known.contains edge.target).take
          (store.allowance options results id)).map (·, .outgoing) ∧
      (part.boundary.filter fun shown => shown.1.target == id && shown.2 == .incoming) =
        (((store.edgesTo id).filter fun edge => !known.contains edge.source).take
          (store.allowance options results id)).map (·, .incoming)) ∧
    (options.includesBoundary = false → part.boundary = []) ∧
    (∀ shown ∈ part.nodes, shown.isResult = true ↔ shown.node.id ∈ results) ∧
    -- no edge is listed twice
    (part.edges ++ part.boundary.map Prod.fst).Subperm store.edges ∧
    (store.Sound → ((part.edges ++ part.boundary.map Prod.fst).map Edge.key).Nodup) := by
  intro known part
  have hknown : (store.members results others).map Member.id = known :=
    map_id_members store results others
  have hnodup : known.Nodup := hknown ▸ nodup_map_id_members store results others
  have hsubperm : (part.edges ++ part.boundary.map Prod.fst).Subperm store.edges :=
    store.edges_append_boundary_subperm results others centrality? communities? options
  have hboundary := store.filter_boundary_subgraph results others centrality? communities? options
  rw [hknown] at hboundary
  refine ⟨?_, ?_, ?_, ?_, hsubperm, ?_⟩
  · have hinner := store.innerEdges_perm hnodup
    rwa [← hknown] at hinner ⊢
  · exact fun id => ⟨hboundary .outgoing id, hboundary .incoming id⟩
  · intro hnone
    have hboundary := store.boundary_subgraph results others centrality? communities? options
    rwa [hnone, if_neg Bool.false_ne_true] at hboundary
  · exact store.isResult_of_mem_nodes results others centrality? communities? options
  · intro hsound
    obtain ⟨listed, hperm, hsublist⟩ := hsubperm
    rw [← (hperm.map Edge.key).nodup_iff]
    exact hsound.keys_nodup.sublist (hsublist.map Edge.key)

/-- Edges of two relations, an edge from a node to itself, and more edges out of `a` than are
shown. -/
def crossroads : List Mutation :=
  [.addEdge { source := "a", target := "b", relation := .calls },
    .addEdge { source := "a", target := "b", relation := .imports },
    .addEdge { source := "a", target := "a", relation := .calls },
    .addEdge { source := "a", target := "x", relation := .calls },
    .addEdge { source := "a", target := "y", relation := .calls },
    .addEdge { source := "a", target := "z", relation := .calls },
    .addEdge { source := "b", target := "x", relation := .calls },
    .addEdge { source := "x", target := "a", relation := .calls }]

theorem subgraph_edges_and_boundary_of_crossroads :
    let part := fun options =>
      (ofHistory crossroads).subgraph ["a", "a", "missing"] ["b", "a"] none none options
    let limited := part { maxBoundaryEdges := 2 }
    limited.edges.length = 3 ∧
    limited.boundary.map (fun shown => (shown.1.source, shown.1.target, shown.2)) =
      [("a", "x", .outgoing), ("a", "y", .outgoing), ("x", "a", .incoming)] ∧
    ((limited.edges ++ limited.boundary.map Prod.fst).map Edge.key).Nodup ∧
    (part { includesBoundary := false }).boundary = [] := by
  intro part limited
  have hlimited := subgraph_edges_and_boundary (ofHistory crossroads) ["a", "a", "missing"]
    ["b", "a"] none none { maxBoundaryEdges := 2 }
  have hnone := subgraph_edges_and_boundary (ofHistory crossroads) ["a", "a", "missing"]
    ["b", "a"] none none { includesBoundary := false }
  refine ⟨by decide +kernel, by decide +kernel, ?_, ?_⟩
  · exact hlimited.2.2.2.2.2 (Sound.ofHistory crossroads)
  · exact hnone.2.2.1 rfl

end Store

end CodeGraph
