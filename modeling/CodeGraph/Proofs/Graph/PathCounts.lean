import CodeGraph.Proofs.Graph.PathShares
import CodeGraph.Proofs.Graph.PathTallies

namespace CodeGraph

/-! What a search from one node computes.  Along the links between its levels the numbers of
shortest paths are summed up, and against them the dependencies. -/

namespace Adjacency

section Search

variable {graph : Adjacency} {step : Nat → Nat → Prop} (hgraph : graph.Follows step)
  {start : Nat} (hstart : start < graph.size)

include hgraph hstart

/-! Numbers of paths -/

/-- The numbers of shortest paths from the start of a search. -/
def searchCounts (graph : Adjacency) (start : Nat) : Array ℚ :=
  countPaths graph.size start (graph.searchLinks start)

omit hgraph hstart in
theorem searchCounts_eq_foldl :
    graph.searchCounts start =
      (graph.searchLinks start).foldl (addItem Prod.snd Prod.fst fun _ value => value)
        ((Array.replicate graph.size 0).setIfInBounds start 1) := by
  rw [searchCounts, countPaths, Nat.cast_zero, Nat.cast_one]
  rfl

theorem getD_searchCounts (node : Nat) :
    (graph.searchCounts start).getD node 0 =
      (if start = node then 1 else 0) +
        ∑ link ∈ (graph.searchLinks start).toFinset with link.2 = node,
          (graph.searchCounts start).getD link.1 0 := by
  have hinitial : ((Array.replicate graph.size (0 : ℚ)).setIfInBounds start 1).getD node 0 =
      if start = node then 1 else 0 := by
    rw [Array.getD_eq_getD_getElem?, Array.getElem?_setIfInBounds, Array.size_replicate]
    by_cases hsame : start = node
    · simp [hsame, hsame ▸ hstart]
    · by_cases hlt : node < graph.size <;> simp [hsame, hlt]
  rw [searchCounts_eq_foldl, getD_foldl_addItem_eq_sum (nodup_searchLinks hgraph start), hinitial]
  · intro link hlink
    obtain ⟨_, -, -, hstep⟩ := (mem_searchLinks hgraph hstart).mp hlink
    simpa using (hgraph.lt_size _ _ hstep).2
  · intro link hlink
    exact ne_of_mem_searchLinks hgraph hstart hlink hlink fun m n hm hn => (hm.unique hn).le
  · refine (pairwise_searchLinks hgraph start).imp_of_mem ?_
    intro earlier later hearlier hlater hpair
    exact ne_of_mem_searchLinks hgraph hstart hearlier hlater hpair.2

omit hgraph hstart in
theorem Follows.mem_range (hgraph : graph.Follows step) (before after : Nat)
    (hstep : step before after) : after ∈ Finset.range graph.size :=
  Finset.mem_range.mpr (hgraph.lt_size before after hstep).2

theorem mem_befores {count before node : Nat} (hnode : Distance step start (count + 1) node) :
    before ∈ ({link ∈ (graph.searchLinks start).toFinset | link.2 = node}).image Prod.fst ↔
      Distance step start count before ∧ step before node := by
  simp only [Finset.mem_image, Finset.mem_filter, List.mem_toFinset, mem_searchLinks hgraph hstart]
  constructor
  · rintro ⟨link, ⟨⟨other, hfirst, hsecond, hstep⟩, rfl⟩, rfl⟩
    obtain rfl : other = count := Nat.succ.inj (hsecond.unique hnode)
    exact ⟨hfirst, hstep⟩
  · rintro ⟨hbefore, hstep⟩
    exact ⟨(before, node), ⟨⟨count, hbefore, hnode, hstep⟩, rfl⟩, rfl⟩

theorem mem_afters {count after node : Nat} (hnode : Distance step start count node) :
    after ∈ ({link ∈ (graph.searchLinks start).toFinset | link.1 = node}).image Prod.snd ↔
      step node after ∧ Distance step start (count + 1) after := by
  simp only [Finset.mem_image, Finset.mem_filter, List.mem_toFinset, mem_searchLinks hgraph hstart]
  constructor
  · rintro ⟨link, ⟨⟨other, hfirst, hsecond, hstep⟩, rfl⟩, rfl⟩
    obtain rfl : other = count := hfirst.unique hnode
    exact ⟨hstep, hsecond⟩
  · rintro ⟨hstep, hafter⟩
    exact ⟨(node, after), ⟨⟨count, hnode, hafter, hstep⟩, rfl⟩, rfl⟩

omit hgraph hstart in
theorem sum_image_ends {near far : Nat × Nat → Nat}
    (hends : ∀ link other, near link = near other → far link = far other → link = other)
    (links : Finset (Nat × Nat)) (node : Nat) (value : Nat → ℚ) :
    ∑ other ∈ ({link ∈ links | near link = node}).image far, value other =
      ∑ link ∈ links with near link = node, value (far link) := by
  apply Finset.sum_image
  intro link hlink other hother hfar
  have hnear := (Finset.mem_filter.mp hlink).2.trans (Finset.mem_filter.mp hother).2.symm
  exact hends link other hnear hfar

/-- The counts of a search are the numbers of shortest paths. -/
theorem getD_searchCounts_eq_pathNumber {count node : Nat}
    (hnode : Distance step start count node) :
    (graph.searchCounts start).getD node 0 = pathNumber step start count node := by
  induction count generalizing node with
  | zero =>
      cases hnode.reached
      have hnone : ∀ link ∈ (graph.searchLinks start).toFinset, link.2 ≠ start := by
        intro link hlink
        obtain ⟨_, -, hsecond, -⟩ :=
          (mem_searchLinks hgraph hstart).mp (List.mem_toFinset.mp hlink)
        exact hsecond.ne_start (Nat.succ_pos _)
      rw [getD_searchCounts hgraph hstart, if_pos rfl, Finset.filter_false_of_mem hnone,
        Finset.sum_empty, add_zero, pathNumber_zero_self, Nat.cast_one]
  | succ count ih =>
      rw [getD_searchCounts hgraph hstart, if_neg (hnode.ne_start (Nat.succ_pos _)).symm, zero_add,
        hnode.pathNumber_eq_sum hgraph.mem_range (Finset.mem_range.mpr hstart)
          fun _ => mem_befores hgraph hstart hnode, Nat.cast_sum,
        sum_image_ends fun _ _ hsecond hfirst => Prod.ext hfirst hsecond]
      apply Finset.sum_congr rfl
      intro link hlink
      have hbefore := (mem_befores hgraph hstart hnode).mp (Finset.mem_image_of_mem Prod.fst hlink)
      exact ih hbefore.1

theorem searchCounts_ne_zero {link : Nat × Nat} (hlink : link ∈ graph.searchLinks start) :
    (graph.searchCounts start).getD link.2 0 ≠ 0 := by
  obtain ⟨_, -, hsecond, -⟩ := (mem_searchLinks hgraph hstart).mp hlink
  rw [getD_searchCounts_eq_pathNumber hgraph hstart hsecond]
  exact hsecond.reached.pathNumber_ne_zero hgraph.mem_range (Finset.mem_range.mpr hstart)

/-! Dependencies -/

/-- The links of a search in the order in which they are followed back. -/
def backLinks (graph : Adjacency) (start : Nat) : List (Nat × Nat) :=
  (graph.search start).flatten.reverse.flatMap fun node =>
    (graph.searchLinks start).filter fun link => link.2 == node

theorem dependencies_eq_foldl :
    (graph.dependencies start : Array ℚ) =
      (graph.backLinks start).foldl
        (addItem Prod.fst Prod.snd fun link value =>
          (graph.searchCounts start).getD link.1 0 / (graph.searchCounts start).getD link.2 0 *
            (1 + value))
        (Array.replicate graph.size 0) := by
  have hstack : (graph.pathTally start : PathTally ℚ).stack =
      (graph.search start).flatten.reverse := by
    rw [pathTally_eq hgraph hstart]
  have hcounts : (graph.pathTally start : PathTally ℚ).counts = graph.searchCounts start := by
    rw [pathTally_eq hgraph hstart, searchCounts]
  rw [dependencies_eq_foldl_passBack, hstack, backLinks, List.foldl_flatMap, Nat.cast_zero]
  apply List.foldl_ext
  intro shares node _
  rw [passBack, getD_fronts_pathTally hgraph hstart, List.foldl_map, hcounts]
  apply List.foldl_ext
  intro shares link hlink
  obtain rfl : link.2 = node := beq_iff_eq.mp (List.mem_filter.mp hlink).2
  rw [addItem, Nat.cast_zero, Nat.cast_one]

theorem toFinset_backLinks :
    (graph.backLinks start).toFinset = (graph.searchLinks start).toFinset := by
  ext link
  simp only [backLinks, List.mem_toFinset, List.mem_flatMap, List.mem_reverse, List.mem_filter,
    beq_iff_eq, mem_flatten_search hgraph hstart]
  constructor
  · rintro ⟨_, -, hlink, -⟩
    exact hlink
  · intro hlink
    obtain ⟨_, -, hsecond, -⟩ := (mem_searchLinks hgraph hstart).mp hlink
    exact ⟨link.2, ⟨_, hsecond.reached⟩, hlink, rfl⟩

omit hstart in
theorem pairwise_backLinks (start : Nat) :
    (graph.backLinks start).Pairwise fun earlier later => earlier ≠ later ∧
      ∀ m n, Distance step start m earlier.2 → Distance step start n later.2 → n ≤ m := by
  have hlists := listsDistances_search hgraph start
  rw [backLinks, List.pairwise_flatMap]
  constructor
  · intro node _
    refine ((nodup_searchLinks hgraph start).filter _).imp_of_mem ?_
    intro earlier later hearlier hlater hne
    have hfirst : earlier.2 = node := beq_iff_eq.mp (List.mem_filter.mp hearlier).2
    have hsecond : later.2 = node := beq_iff_eq.mp (List.mem_filter.mp hlater).2
    refine ⟨hne, ?_⟩
    rw [hfirst, hsecond]
    exact fun m n hm hn => (hn.unique hm).le
  · rw [List.pairwise_reverse]
    refine (hlists.pairwise_flatten.and hlists.nodup_flatten).imp ?_
    rintro a b ⟨hle, hne⟩ earlier hearlier later hlater
    have hfirst : earlier.2 = b := beq_iff_eq.mp (List.mem_filter.mp hearlier).2
    have hsecond : later.2 = a := beq_iff_eq.mp (List.mem_filter.mp hlater).2
    constructor
    · rintro rfl
      exact hne (hsecond.symm.trans hfirst)
    · rw [hfirst, hsecond]
      exact fun m n hm hn => hle n m hn hm

theorem getD_dependencies (node : Nat) :
    (graph.dependencies start : Array ℚ).getD node 0 =
      ∑ link ∈ (graph.searchLinks start).toFinset with link.1 = node,
        (graph.searchCounts start).getD link.1 0 / (graph.searchCounts start).getD link.2 0 *
          (1 + (graph.dependencies start : Array ℚ).getD link.2 0) := by
  have hmem : ∀ link ∈ graph.backLinks start, link ∈ graph.searchLinks start := by
    intro link hlink
    rwa [← List.mem_toFinset, ← toFinset_backLinks hgraph hstart, List.mem_toFinset]
  have hpairwise := pairwise_backLinks hgraph start
  rw [dependencies_eq_foldl hgraph hstart, getD_foldl_addItem_eq_sum (hpairwise.imp And.left),
    getD_replicate_zero, zero_add, toFinset_backLinks hgraph hstart]
  · intro link hlink
    obtain ⟨_, hfirst, -, -⟩ := (mem_searchLinks hgraph hstart).mp (hmem link hlink)
    rw [Array.size_replicate, ← Finset.mem_range]
    exact hfirst.reached.mem_nodes hgraph.mem_range (Finset.mem_range.mpr hstart)
  · intro link hlink
    have hle : ∀ m n, Distance step start m link.2 → Distance step start n link.2 → m ≤ n :=
      fun m n hm hn => (hm.unique hn).le
    exact (ne_of_mem_searchLinks hgraph hstart (hmem link hlink) (hmem link hlink) hle).symm
  · refine hpairwise.imp_of_mem ?_
    intro earlier later hearlier hlater hpair
    exact (ne_of_mem_searchLinks hgraph hstart (hmem later hlater) (hmem earlier hearlier)
      fun m n hm hn => hpair.2 n m hn hm).symm

theorem getD_dependencies_eq_dependency {count node : Nat}
    (hnode : Distance step start count node) :
    (graph.dependencies start : Array ℚ).getD node 0 =
      dependency step (Finset.range graph.size) start node := by
  -- from the farthest nodes down
  induction hleft : graph.size - count generalizing count node with
  | zero =>
      have hlt := distance_lt_of_follows hgraph hstart hnode
      omega
  | succ left ih =>
      rw [getD_dependencies hgraph hstart, dependency_eq_sum_afters hgraph.mem_range
        (Finset.mem_range.mpr hstart) (fun _ => mem_afters hgraph hstart hnode) hnode,
        sum_image_ends fun _ _ => Prod.ext]
      apply Finset.sum_congr rfl
      intro link hlink
      obtain ⟨hmem, rfl⟩ := Finset.mem_filter.mp hlink
      obtain ⟨other, hfirst, hsecond, -⟩ :=
        (mem_searchLinks hgraph hstart).mp (List.mem_toFinset.mp hmem)
      obtain rfl : other = count := hfirst.unique hnode
      rw [getD_searchCounts_eq_pathNumber hgraph hstart hfirst,
        getD_searchCounts_eq_pathNumber hgraph hstart hsecond, ih hsecond (by omega)]

end Search

end Adjacency

end CodeGraph
