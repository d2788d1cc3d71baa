import CodeGraph.Proofs.Graph.PathCounts

namespace CodeGraph

/-! Betweenness.  The scores that are summed up search by search are, for each node, the shares it
has in the shortest paths between all other nodes. -/

/-- The pairs of two other nodes with a way from the first to the second. -/
noncomputable def pairsAround {α : Type} [DecidableEq α] (step : α → α → Prop) (nodes : Finset α)
    (node : α) : Finset (α × α) :=
  open scoped Classical in
  {pair ∈ nodes ×ˢ nodes |
    pair.1 ≠ pair.2 ∧ pair.1 ≠ node ∧ pair.2 ≠ node ∧ Reaches step pair.1 pair.2}

/-- Where a search ends at its start there is no path through another node. -/
theorem sum_pairsAround {α : Type} [DecidableEq α] (step : α → α → Prop) (nodes : Finset α)
    (node : α) :
    ∑ pair ∈ pairsAround step nodes node, pathShare step pair.1 pair.2 node =
      ∑ start ∈ nodes, if node ≠ start then dependency step nodes start node else 0 := by
  classical
  rw [pairsAround, Finset.sum_filter, Finset.sum_product]
  apply Finset.sum_congr rfl
  intro start _
  by_cases hstart : node = start
  · simp [hstart]
  · rw [if_pos hstart, dependency]
    refine (Finset.sum_filter _ _).symm.trans (Finset.sum_subset ?_ ?_)
    · intro goal hgoal
      obtain ⟨hmem, -, -, hne, hreaches⟩ := Finset.mem_filter.mp hgoal
      exact Finset.mem_erase.mpr ⟨hne, mem_reachedFrom.mpr ⟨hmem, hreaches⟩⟩
    · intro goal hgoal hother
      obtain ⟨hne, hreached⟩ := Finset.mem_erase.mp hgoal
      obtain ⟨hmem, hreaches⟩ := mem_reachedFrom.mp hreached
      obtain rfl : start = goal := by
        by_contra hgoal
        exact hother (Finset.mem_filter.mpr ⟨hmem, hgoal, Ne.symm hstart, hne, hreaches⟩)
      exact pathShare_eq_zero .refl (Ne.symm hstart) fun fewer hfewer => absurd hfewer (by omega)

/-- Among two nodes none is between others. -/
theorem pairsAround_range_of_le {step : Nat → Nat → Prop} {size node : Nat} (hsize : size ≤ 2)
    (hnode : node < size) : pairsAround step (Finset.range size) node = ∅ := by
  apply Finset.eq_empty_of_forall_notMem
  rintro ⟨start, goal⟩ hpair
  simp only [pairsAround, Finset.mem_filter, Finset.mem_product, Finset.mem_range] at hpair
  omega

namespace Adjacency

theorem size_settle {α : Type} [Add α] [Mul α] [Div α] [NatCast α] (start : Nat)
    (tally : PathTally α) (state : Dependencies α) (node : Nat) :
    (settle start tally state node).scores.size = state.scores.size := by
  rw [settle]
  split
  · exact size_addAt _ _ _
  · rfl

theorem size_addDependencies (graph : Adjacency) (scores : Array ℚ) (start : Nat) :
    (graph.addDependencies scores start).scores.size = scores.size := by
  have hsize : ∀ (tally : PathTally ℚ) (nodes : List Nat) (state : Dependencies ℚ),
      (nodes.foldl (settle start tally) state).scores.size = state.scores.size := by
    intro tally nodes
    induction nodes with
    | nil => exact fun _ => rfl
    | cons node rest ih =>
        intro state
        rw [List.foldl_cons, ih, size_settle]
  exact hsize _ _ _

section Scores

variable {graph : Adjacency} {step : Nat → Nat → Prop} (hgraph : graph.Follows step) {start : Nat}

include hgraph

section OneSearch

variable (hstart : start < graph.size)

include hstart

theorem mem_searchedNodes {node : Nat} :
    node ∈ graph.searchedNodes start ↔ Reaches step start node ∧ node ≠ start := by
  rw [searchedNodes, List.mem_filter, List.mem_reverse, mem_flatten_search hgraph hstart,
    bne_iff_ne]

theorem lt_size_of_mem_searchedNodes {node : Nat} (hnode : node ∈ graph.searchedNodes start) :
    node < graph.size := by
  obtain ⟨⟨_, hops⟩, -⟩ := (mem_searchedNodes hgraph hstart).mp hnode
  exact Finset.mem_range.mp (hops.mem_nodes hgraph.mem_range (Finset.mem_range.mpr hstart))

theorem scores_eq_foldl_addItem (scores : Array ℚ) :
    (graph.addDependencies scores start).scores =
      (graph.searchedNodes start).foldl
        (addItem id (fun _ => graph.size) fun node _ =>
          (graph.dependencies start : Array ℚ).getD node 0) scores := by
  rw [scores_addDependencies hgraph hstart, Nat.cast_zero]
  rfl

/-- One search adds the dependencies from its start. -/
theorem getD_addDependencies {scores : Array ℚ} (hscores : scores.size = graph.size) (node : Nat) :
    (graph.addDependencies scores start).scores.getD node 0 =
      scores.getD node 0 +
        if node ≠ start then dependency step (Finset.range graph.size) start node else 0 := by
  have hnodup : (graph.searchedNodes start).Nodup :=
    (List.nodup_reverse.mpr (listsDistances_search hgraph start).nodup_flatten).filter _
  rw [scores_eq_foldl_addItem hgraph hstart, getD_foldl_addItem_eq_sum hnodup]
  · congr 1
    simp only [id_eq, Finset.filter_eq']
    by_cases hadded : node ∈ graph.searchedNodes start
    · obtain ⟨hreaches, hne⟩ := (mem_searchedNodes hgraph hstart).mp hadded
      rw [if_pos (List.mem_toFinset.mpr hadded), Finset.sum_singleton, if_pos hne]
      exact getD_dependencies_eq_dependency hgraph hstart hreaches.distance
    · rw [if_neg (hadded ∘ List.mem_toFinset.mp), Finset.sum_empty]
      by_cases hne : node ≠ start
      · rw [if_pos hne, dependency_of_not_reaches fun hreaches =>
          hadded ((mem_searchedNodes hgraph hstart).mpr ⟨hreaches, hne⟩)]
      · rw [if_neg hne]
  · intro other hother
    exact hscores.symm ▸ lt_size_of_mem_searchedNodes hgraph hstart hother
  · intro other hother
    exact Nat.ne_of_lt (lt_size_of_mem_searchedNodes hgraph hstart hother)
  · -- what is added is not read again
    refine (List.pairwise_of_forall_mem_list ?_)
    intro _ _ other hother
    exact Nat.ne_of_lt (lt_size_of_mem_searchedNodes hgraph hstart hother)

end OneSearch

/-- All searches together. -/
theorem getD_foldl_addDependencies {starts : List Nat}
    (hstarts : ∀ start ∈ starts, start < graph.size) {scores : Array ℚ}
    (hscores : scores.size = graph.size) (node : Nat) :
    (starts.foldl (fun scores start => (graph.addDependencies scores start).scores) scores).getD
        node 0 =
      scores.getD node 0 + (starts.map fun start =>
        if node ≠ start then dependency step (Finset.range graph.size) start node else 0).sum := by
  induction starts generalizing scores with
  | nil => simp
  | cons start rest ih =>
      rw [List.forall_mem_cons] at hstarts
      have hsize := (graph.size_addDependencies scores start).trans hscores
      rw [List.foldl_cons, ih hstarts.2 hsize, getD_addDependencies hgraph hstarts.1 hscores,
        List.map_cons, List.sum_cons, add_assoc]

end Scores

/-- The scores before they are scaled. -/
def totals (graph : Adjacency) : Array ℚ :=
  graph.nodes.foldl (fun scores start => (graph.addDependencies scores start).scores)
    (Array.replicate graph.size 0)

theorem size_totals (graph : Adjacency) : graph.totals.size = graph.size := by
  have hsize : ∀ (starts : List Nat) (scores : Array ℚ),
      (starts.foldl (fun scores start => (graph.addDependencies scores start).scores)
        scores).size = scores.size := by
    intro starts
    induction starts with
    | nil => exact fun _ => rfl
    | cons start rest ih =>
        intro scores
        rw [List.foldl_cons, ih, size_addDependencies]
  rw [totals, hsize, Array.size_replicate]

theorem getD_totals {graph : Adjacency} {step : Nat → Nat → Prop} (hgraph : graph.Follows step)
    (node : Nat) :
    graph.totals.getD node 0 =
      ∑ pair ∈ pairsAround step (Finset.range graph.size) node,
        pathShare step pair.1 pair.2 node := by
  have hstarts : ∀ start ∈ graph.nodes, start < graph.size := fun _ => List.mem_range.mp
  rw [totals, getD_foldl_addDependencies hgraph hstarts Array.size_replicate,
    getD_replicate_zero, zero_add, sum_pairsAround, nodes, ← List.sum_toFinset _ List.nodup_range,
    List.toFinset_range]

theorem betweenness_eq (graph : Adjacency) :
    (graph.betweenness : List ℚ) =
      if graph.size > 2 then
        graph.totals.toList.map (· * (1 / (((graph.size - 1) * (graph.size - 2) : Nat) : ℚ)))
      else graph.totals.toList := by
  rw [betweenness, Nat.cast_zero, Nat.cast_one]
  rfl

/-! Runs with checked numbers -/

section CheckedRuns

variable {graph : Adjacency} {step : Nat → Nat → Prop} (hgraph : graph.Follows step) {start : Nat}

theorem countPaths_checked (size start : Nat) (links : List (Nat × Nat)) :
    countPaths size start links = checked (countPaths size start links) := by
  have hinitial : (Array.replicate size ((0 : Nat) : Checked)).setIfInBounds start
      ((1 : Nat) : Checked) = checked ((Array.replicate size ((0 : Nat) : ℚ)).setIfInBounds
        start ((1 : Nat) : ℚ)) := by
    rw [checked, Array.map_setIfInBounds, Array.map_replicate]
    rfl
  rw [countPaths, hinitial]
  apply foldl_checked
  intro link _ counts
  rw [getD_checked, addAt_checked]

include hgraph

variable (hstart : start < graph.size)

include hstart

theorem passBack_checked (node : Nat) (shares : Array ℚ) :
    passBack (graph.pathTally start) (checked shares) node =
      checked (passBack (graph.pathTally start) shares node) := by
  have hcounts : (graph.pathTally start : PathTally Checked).counts =
      checked (graph.searchCounts start) := by
    rw [pathTally_eq hgraph hstart, searchCounts, countPaths_checked]
  have hcounts' : (graph.pathTally start : PathTally ℚ).counts = graph.searchCounts start := by
    rw [pathTally_eq hgraph hstart, searchCounts]
  rw [passBack, passBack, getD_fronts_pathTally hgraph hstart, getD_fronts_pathTally hgraph hstart,
    hcounts, hcounts']
  apply foldl_checked
  intro front hfront shares
  obtain ⟨link, hlink, rfl⟩ := List.mem_map.mp hfront
  obtain ⟨hmem, hsame⟩ := List.mem_filter.mp hlink
  obtain rfl : link.2 = node := beq_iff_eq.mp hsame
  have hsome := searchCounts_ne_zero hgraph hstart hmem
  rw [← Nat.cast_zero] at hsome
  rw [getD_checked, getD_checked, getD_checked, Checked.number_div _ hsome, Checked.natCast_eq 1,
    Checked.number_add, Checked.number_mul, addAt_checked]

theorem dependencies_checked :
    graph.dependencies start = checked (graph.dependencies start) := by
  have hstack : (graph.pathTally start : PathTally Checked).stack =
      (graph.pathTally start : PathTally ℚ).stack := by
    rw [pathTally_eq hgraph hstart, pathTally_eq hgraph hstart]
  rw [dependencies_eq_foldl_passBack, dependencies_eq_foldl_passBack, hstack, Checked.natCast_eq,
    ← checked_replicate]
  exact foldl_checked (fun node _ => passBack_checked hgraph hstart node) _

theorem scores_checked (scores : Array ℚ) :
    (graph.addDependencies (checked scores) start).scores =
      checked (graph.addDependencies scores start).scores := by
  rw [scores_addDependencies hgraph hstart, scores_addDependencies hgraph hstart,
    dependencies_checked hgraph hstart]
  apply foldl_checked
  intro node _ scores
  rw [getD_checked, addAt_checked]

omit hstart in
theorem betweenness_checked :
    (graph.betweenness : List Checked) = (graph.betweenness : List ℚ).map .number := by
  have htotals : graph.nodes.foldl (fun scores start => (graph.addDependencies scores start).scores)
      (Array.replicate graph.size ((0 : Nat) : Checked)) = checked graph.totals := by
    rw [Checked.natCast_eq, ← checked_replicate, Nat.cast_zero]
    apply foldl_checked
    intro start hmem scores
    exact scores_checked hgraph (List.mem_range.mp hmem) scores
  rw [betweenness, htotals, betweenness_eq, checked, Array.toList_map]
  by_cases hsize : graph.size > 2
  · have hscale : (((graph.size - 1) * (graph.size - 2) : Nat) : ℚ) ≠ 0 :=
      Nat.cast_ne_zero.mpr (Nat.mul_ne_zero (by omega) (by omega))
    simp only [if_pos hsize, Checked.natCast_eq, Checked.number_div _ hscale, List.map_map]
    apply List.map_congr_left
    intro total _
    simp
  · rw [if_neg hsize, if_neg hsize]

end CheckedRuns

theorem getElem?_totals {graph : Adjacency} {step : Nat → Nat → Prop} (hgraph : graph.Follows step)
    {node : Nat} (hnode : node < graph.size) :
    graph.totals.toList[node]? =
      some (∑ pair ∈ pairsAround step (Finset.range graph.size) node,
        pathShare step pair.1 pair.2 node) := by
  have hlt : node < graph.totals.size := graph.size_totals.symm ▸ hnode
  rw [← getD_totals hgraph, Array.getD_eq_getD_getElem?, Array.getElem?_toList,
    Array.getElem?_eq_getElem hlt, Option.getD_some]

theorem getElem?_betweenness {graph : Adjacency} {step : Nat → Nat → Prop}
    (hgraph : graph.Follows step) (hsize : 2 < graph.size) {node : Nat}
    (hnode : node < graph.size) :
    (graph.betweenness : List ℚ)[node]? =
      some (1 / (((graph.size : ℚ) - 1) * ((graph.size : ℚ) - 2)) *
        ∑ pair ∈ pairsAround step (Finset.range graph.size) node,
          pathShare step pair.1 pair.2 node) := by
  have hscale : (((graph.size - 1) * (graph.size - 2) : Nat) : ℚ) =
      ((graph.size : ℚ) - 1) * ((graph.size : ℚ) - 2) := by
    rw [Nat.cast_mul, Nat.cast_sub (by omega), Nat.cast_sub (by omega), Nat.cast_one,
      Nat.cast_ofNat]
  rw [betweenness_eq, if_pos hsize, List.getElem?_map, getElem?_totals hgraph hnode, hscale,
    Option.map_some, mul_comm]

theorem length_betweenness (graph : Adjacency) :
    (graph.betweenness : List ℚ).length = graph.size := by
  rw [betweenness_eq, apply_ite List.length, List.length_map, ite_self, Array.length_toList,
    size_totals]

theorem eq_zero_of_mem_betweenness {graph : Adjacency} {step : Nat → Nat → Prop}
    (hgraph : graph.Follows step) (hsize : graph.size ≤ 2) {score : ℚ}
    (hscore : score ∈ (graph.betweenness : List ℚ)) : score = 0 := by
  rw [betweenness_eq, if_neg (Nat.not_lt_of_le hsize)] at hscore
  obtain ⟨node, hnode⟩ := List.mem_iff_getElem?.mp hscore
  obtain ⟨hlt, -⟩ := List.getElem?_eq_some_iff.mp hnode
  rw [Array.length_toList, size_totals] at hlt
  rw [getElem?_totals hgraph hlt, pairsAround_range_of_le hsize hlt, Finset.sum_empty] at hnode
  exact (Option.some.inj hnode).symm

end Adjacency

namespace Store

/-- The betweenness of a node is the mean, over all pairs of other nodes, of its share in the
shortest paths from the one to the other. -/
theorem betweenness_by_shortest_paths (history : List Mutation) :
    let store := ofHistory history
    let size := store.nodes.length
    let graph := Adjacency.ofStore store
    let scores : List ℚ := graph.scores .betweenness
    scores.length = size ∧
    (2 < size → ∀ node < size,
      scores[node]? = some (1 / (((size : ℚ) - 1) * ((size : ℚ) - 2)) *
        ∑ pair ∈ pairsAround store.Adjacent (Finset.range size) node,
          pathShare store.Adjacent pair.1 pair.2 node)) ∧
    (size ≤ 2 → ∀ score ∈ scores, score = 0) ∧
    -- no number was divided by zero, neither in the scores nor on the way to them
    (graph.scores .betweenness : List Checked) = scores.map .number ∧
    (∀ start < size, ∀ scores : Array Checked, (graph.addDependencies scores start).shares =
      (graph.dependencies start : Array ℚ).map .number) ∧
    ∀ start < size, ∀ goal, Reaches store.Adjacent start goal →
      (shortestPaths store.Adjacent start goal).ncard ≠ 0 := by
  intro store size graph scores
  have hgraph : graph.Follows store.Adjacent := Adjacency.follows_ofStore (Sound.ofHistory history)
  have hsize : graph.size = size := Adjacency.size_ofStore (Sound.ofHistory history)
  rw [← hsize]
  refine ⟨graph.length_betweenness, ?_, ?_, Adjacency.betweenness_checked hgraph, ?_, ?_⟩
  · intro hmany node hnode
    exact Adjacency.getElem?_betweenness hgraph hmany hnode
  · intro hfew score hscore
    exact Adjacency.eq_zero_of_mem_betweenness hgraph hfew hscore
  · intro start hstart scores
    rw [Adjacency.shares_addDependencies]
    exact Adjacency.dependencies_checked hgraph hstart
  · intro start hstart goal hreaches
    rw [shortestPaths_eq hreaches.distance]
    exact (hreaches.distance.reached.pathNumber_pos hgraph.mem_range
      (Finset.mem_range.mpr hstart)).ne'

end Store

end CodeGraph
