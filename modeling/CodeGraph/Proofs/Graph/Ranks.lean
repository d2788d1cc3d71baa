import CodeGraph.Graph.Centrality
import CodeGraph.Proofs.Graph.Adjacency
import CodeGraph.Proofs.Graph.Checked
import CodeGraph.Proofs.Graph.Condensation
import Mathlib.Algebra.BigOperators.Field
import Mathlib.Algebra.BigOperators.Ring.Finset
import Mathlib.Algebra.Order.BigOperators.Group.Finset
import Mathlib.Tactic.NormNum
import Mathlib.Tactic.Positivity
import Mathlib.Tactic.Ring

namespace CodeGraph

/-! Rank.  In every round each node hands out the rank that it has, in equal parts to its successors
or else to all nodes.  What leaves along the links of a graph arrives along the same links, so that
the ranks of all nodes always add up to one. -/

section Rounds

variable {α : Type} {step : α → α → Prop} {nodes : Finset α} {ranks : α → ℚ}

/-- The nodes that one step leads to. -/
noncomputable def stepsFrom (step : α → α → Prop) (nodes : Finset α) (node : α) : Finset α :=
  open scoped Classical in {other ∈ nodes | step node other}

/-- What arrives at a node, each node in front of it giving an equal part to all it leads to. -/
noncomputable def received (step : α → α → Prop) (nodes : Finset α) (ranks : α → ℚ) (node : α) :
    ℚ :=
  ∑ other ∈ stepsFrom (flip step) nodes node, ranks other / (stepsFrom step nodes other).card

/-- The rank of the nodes that lead nowhere. -/
noncomputable def stranded (step : α → α → Prop) (nodes : Finset α) (ranks : α → ℚ) : ℚ :=
  ∑ other ∈ nodes with (stepsFrom step nodes other).card = 0, ranks other

/-- The rank of a node after one more round. -/
noncomputable def rankOnward (step : α → α → Prop) (nodes : Finset α) (ranks : α → ℚ) (node : α) :
    ℚ :=
  15 / 100 / nodes.card + 85 / 100 * received step nodes ranks node +
    85 / 100 * stranded step nodes ranks / nodes.card

theorem mem_stepsFrom {node other : α} :
    other ∈ stepsFrom step nodes node ↔ other ∈ nodes ∧ step node other := by
  simp [stepsFrom]

/-- The steps into all nodes are the steps out of all nodes. -/
theorem sum_received (step : α → α → Prop) (nodes : Finset α) (ranks : α → ℚ) :
    ∑ node ∈ nodes, received step nodes ranks node =
      ∑ other ∈ nodes, if (stepsFrom step nodes other).card = 0 then 0 else ranks other := by
  have htranspose : ∀ node other, node ∈ nodes ∧ other ∈ stepsFrom (flip step) nodes node ↔
      node ∈ stepsFrom step nodes other ∧ other ∈ nodes := by
    intro node other
    rw [mem_stepsFrom, mem_stepsFrom, flip]
    tauto
  simp only [received]
  rw [Finset.sum_comm' htranspose]
  refine Finset.sum_congr rfl fun other _ => ?_
  rw [Finset.sum_const, nsmul_eq_mul]
  split
  · next hnone => rw [hnone, Nat.cast_zero, zero_mul]
  · next hsome => exact mul_div_cancel₀ _ (Nat.cast_ne_zero.mpr hsome)

/-- All rank is handed out. -/
theorem sum_received_add_stranded (step : α → α → Prop) (nodes : Finset α) (ranks : α → ℚ) :
    ∑ node ∈ nodes, received step nodes ranks node + stranded step nodes ranks =
      ∑ node ∈ nodes, ranks node := by
  rw [sum_received, stranded, Finset.sum_filter, ← Finset.sum_add_distrib]
  refine Finset.sum_congr rfl fun other _ => ?_
  split
  · exact zero_add _
  · exact add_zero _

theorem sum_rankOnward (hnodes : nodes.Nonempty) (hsum : ∑ node ∈ nodes, ranks node = 1) :
    ∑ node ∈ nodes, rankOnward step nodes ranks node = 1 := by
  have hcard : (nodes.card : ℚ) ≠ 0 := Nat.cast_ne_zero.mpr hnodes.card_ne_zero
  have hshare : ∀ value : ℚ, nodes.card * (value / nodes.card) = value :=
    fun value => mul_div_cancel₀ value hcard
  have hgiven := sum_received_add_stranded step nodes ranks
  rw [hsum] at hgiven
  simp only [rankOnward, Finset.sum_add_distrib, ← Finset.mul_sum, Finset.sum_const, nsmul_eq_mul]
  rw [hshare, hshare, add_assoc, ← mul_add, hgiven]
  norm_num

theorem received_nonneg (step : α → α → Prop) (hranks : ∀ node ∈ nodes, 0 ≤ ranks node)
    (node : α) : 0 ≤ received step nodes ranks node :=
  Finset.sum_nonneg fun other hother =>
    div_nonneg (hranks other (mem_stepsFrom.mp hother).1) (Nat.cast_nonneg _)

theorem stranded_nonneg (step : α → α → Prop) (hranks : ∀ node ∈ nodes, 0 ≤ ranks node) :
    0 ≤ stranded step nodes ranks :=
  Finset.sum_nonneg fun other hother => hranks other (Finset.mem_filter.mp hother).1

/-- No rank falls below what every node is given in any case. -/
theorem le_rankOnward (step : α → α → Prop) (nodes : Finset α)
    (hranks : ∀ node ∈ nodes, 0 ≤ ranks node) (node : α) :
    15 / 100 / nodes.card ≤ rankOnward step nodes ranks node := by
  have hreceived := received_nonneg step hranks node
  have hstranded := stranded_nonneg step hranks
  rw [rankOnward, add_assoc]
  exact le_add_of_nonneg_right (by positivity)

end Rounds

namespace Adjacency

theorem scoreSum_eq_sum (values : List ℚ) : scoreSum values = values.sum := by
  rw [scoreSum, List.sum_eq_foldl, Nat.cast_zero]

theorem damping_eq : (damping : ℚ) = 85 / 100 := by
  simp [damping]

/-! The lists of a graph as sets of steps -/

section Links

variable {store : Store} (hsound : store.Sound)

include hsound

theorem toFinset_successors_ofStore (node : Nat) :
    ((ofStore store).successors node).toFinset =
      stepsFrom store.Adjacent (Finset.range store.nodes.length) node := by
  have hgraph := follows_ofStore hsound
  ext other
  rw [List.mem_toFinset, hgraph.mem_successors, mem_stepsFrom, Finset.mem_range,
    ← size_ofStore hsound]
  exact ⟨fun hstep => ⟨(hgraph.lt_size _ _ hstep).2, hstep⟩, And.right⟩

theorem toFinset_predecessors_ofStore (node : Nat) :
    ((ofStore store).predecessors node).toFinset =
      stepsFrom (flip store.Adjacent) (Finset.range store.nodes.length) node := by
  have hgraph := follows_ofStore hsound
  ext other
  rw [List.mem_toFinset, hgraph.mem_predecessors, mem_stepsFrom, Finset.mem_range,
    ← size_ofStore hsound]
  exact ⟨fun hstep => ⟨(hgraph.lt_size _ _ hstep).1, hstep⟩, And.right⟩

theorem length_successors_ofStore (node : Nat) :
    ((ofStore store).successors node).length =
      (stepsFrom store.Adjacent (Finset.range store.nodes.length) node).card := by
  rw [← toFinset_successors_ofStore hsound,
    List.toFinset_card_of_nodup ((follows_ofStore hsound).nodup_successors node)]

theorem scoreSum_predecessors (ranks : List ℚ) (node : Nat) :
    scoreSum (((ofStore store).predecessors node).map fun other =>
      rankOf ranks other / (((ofStore store).successors other).length : ℚ)) =
        received store.Adjacent (Finset.range store.nodes.length) (rankOf ranks) node := by
  rw [scoreSum_eq_sum, ← List.sum_toFinset _ ((follows_ofStore hsound).nodup_predecessors node),
    toFinset_predecessors_ofStore hsound, received]
  simp only [length_successors_ofStore hsound]

theorem scoreSum_dangling (ranks : List ℚ) :
    scoreSum (((List.range store.nodes.length).filter fun node =>
      ((ofStore store).successors node).isEmpty).map (rankOf ranks)) =
        stranded store.Adjacent (Finset.range store.nodes.length) (rankOf ranks) := by
  rw [scoreSum_eq_sum, ← List.sum_toFinset _ (List.nodup_range.filter _), List.toFinset_filter,
    List.toFinset_range, stranded]
  simp only [List.isEmpty_iff_length_eq_zero, length_successors_ofStore hsound]

/-- A round of the graph of a store follows its edges. -/
theorem nextRanks_ofStore (ranks : List ℚ) :
    (ofStore store).nextRanks ranks = (List.range store.nodes.length).map
      (rankOnward store.Adjacent (Finset.range store.nodes.length) (rankOf ranks)) := by
  rw [nextRanks, nodes_ofStore hsound, size_ofStore hsound]
  simp only [scoreSum_predecessors hsound, scoreSum_dangling hsound, damping_eq]
  apply List.map_congr_left
  intro node _
  rw [rankOnward, Finset.card_range]
  ring

end Links

/-! Rounds from equal ranks on -/

section Rounds

variable {α : Type} [Add α] [Sub α] [Mul α] [Div α] [NatCast α]

/-- The ranks after a number of rounds.  Before the first all nodes have the same. -/
def ranksAfter (graph : Adjacency) (rounds : Nat) : List α :=
  graph.nextRanks^[rounds] (List.replicate graph.size (((1 : Nat) : α) / (graph.size : α)))

variable [LT α] [DecidableLT α]

theorem exists_ranksUpTo_eq (graph : Adjacency) (limit : Nat) (ranks : List α) :
    ∃ rounds ≤ limit, graph.ranksUpTo limit ranks = graph.nextRanks^[rounds] ranks := by
  induction limit generalizing ranks with
  | zero => exact ⟨0, Nat.le_refl 0, rfl⟩
  | succ limit ih =>
      rw [ranksUpTo]
      split
      · exact ⟨1, Nat.succ_le_succ (Nat.zero_le limit), rfl⟩
      · obtain ⟨rounds, hle, hrounds⟩ := ih (graph.nextRanks ranks)
        exact ⟨rounds + 1, Nat.succ_le_succ hle, hrounds⟩

theorem exists_pageRank_eq (graph : Adjacency) :
    ∃ rounds ≤ roundLimitOfRank, (graph.pageRank : List α) = graph.ranksAfter rounds :=
  graph.exists_ranksUpTo_eq roundLimitOfRank _

end Rounds

/-! What every round keeps -/

/-- Ranks of all nodes that add up to one, none below the part that every node is given. -/
structure Distribution (size : Nat) (ranks : List ℚ) : Prop where
  length_eq : ranks.length = size
  sum_eq_one : ranks.sum = 1
  le_of_mem : ∀ rank ∈ ranks, 15 / 100 / size ≤ rank

theorem rankOf_nonneg {ranks : List ℚ} (hranks : ∀ rank ∈ ranks, 0 ≤ rank) (node : Nat) :
    0 ≤ rankOf ranks node := by
  rw [rankOf, List.getD_eq_getElem?_getD]
  cases hrank : ranks[node]? with
  | none => exact Nat.cast_nonneg 0
  | some rank => exact hranks rank (List.mem_of_getElem? hrank)

theorem sum_map_range (size : Nat) (value : Nat → ℚ) :
    ((List.range size).map value).sum = ∑ node ∈ Finset.range size, value node := by
  rw [← List.sum_toFinset _ List.nodup_range, List.toFinset_range]

theorem sum_rankOf (ranks : List ℚ) :
    ∑ node ∈ Finset.range ranks.length, rankOf ranks node = ranks.sum := by
  rw [← sum_map_range]
  exact congrArg List.sum (map_getD_range ranks _)

namespace Distribution

theorem replicate {size : Nat} (hsize : 0 < size) :
    Distribution size (List.replicate size (((1 : Nat) : ℚ) / (size : ℚ))) where
  length_eq := List.length_replicate
  sum_eq_one := by
    rw [List.sum_replicate, nsmul_eq_mul, Nat.cast_one,
      mul_div_cancel₀ _ (Nat.cast_ne_zero.mpr hsize.ne')]
  le_of_mem := by
    intro rank hrank
    rw [(List.mem_replicate.mp hrank).2]
    gcongr
    norm_num

variable {store : Store} (hsound : store.Sound) (hnodes : 0 < store.nodes.length)

include hsound hnodes

theorem nextRanks {ranks : List ℚ} (hranks : Distribution store.nodes.length ranks) :
    Distribution store.nodes.length ((ofStore store).nextRanks ranks) where
  length_eq := by rw [nextRanks_ofStore hsound, List.length_map, List.length_range]
  sum_eq_one := by
    have hsum := sum_rankOf ranks
    rw [hranks.length_eq, hranks.sum_eq_one] at hsum
    rw [nextRanks_ofStore hsound, sum_map_range]
    exact sum_rankOnward (Finset.nonempty_range_iff.mpr hnodes.ne') hsum
  le_of_mem := by
    intro rank hrank
    rw [nextRanks_ofStore hsound] at hrank
    obtain ⟨node, -, rfl⟩ := List.mem_map.mp hrank
    have hnonneg : ∀ other ∈ ranks, 0 ≤ other := by
      intro other hother
      exact le_trans (by positivity) (hranks.le_of_mem other hother)
    have hle := le_rankOnward store.Adjacent (Finset.range store.nodes.length)
      (fun other _ => rankOf_nonneg hnonneg other) node
    rwa [Finset.card_range] at hle

theorem ranksAfter (rounds : Nat) :
    Distribution store.nodes.length ((ofStore store).ranksAfter rounds) := by
  induction rounds with
  | zero =>
      rw [← size_ofStore hsound] at hnodes ⊢
      exact replicate hnodes
  | succ rounds ih =>
      rw [Adjacency.ranksAfter, Function.iterate_succ_apply']
      exact ih.nextRanks hsound hnodes

end Distribution

/-! Rounds with checked numbers -/

theorem Follows.length_successors_pos {graph : Adjacency} {step : Nat → Nat → Prop}
    (hgraph : graph.Follows step) {node other : Nat} (hother : other ∈ graph.predecessors node) :
    0 < (graph.successors other).length :=
  List.length_pos_of_mem
    ((hgraph.mem_successors other node).mpr ((hgraph.mem_predecessors node other).mp hother))

theorem scoreSum_checked (values : List ℚ) :
    scoreSum (values.map Checked.number) = .number (scoreSum values) := by
  rw [scoreSum, scoreSum, List.foldl_map, Checked.natCast_eq]
  exact List.foldl_hom Checked.number (fun _ _ => rfl)

theorem rankOf_checked (ranks : List ℚ) (node : Nat) :
    rankOf (ranks.map Checked.number) node = .number (rankOf ranks node) := by
  rw [rankOf, rankOf, List.getD_eq_getElem?_getD, List.getD_eq_getElem?_getD, List.getElem?_map]
  cases ranks[node]? <;> rfl

theorem damping_checked : (damping : Checked) = .number damping :=
  Checked.number_div _ (by norm_num)

theorem rankTolerance_checked : (rankTolerance : Checked) = .number rankTolerance :=
  Checked.number_div _ (by norm_num)

theorem distance_checked (a b : ℚ) :
    distance (Checked.number a) (.number b) = .number (distance a b) := by
  rw [distance, distance]
  simp only [Checked.number_sub, Checked.natCast_eq, Checked.number_lt]
  exact (apply_ite Checked.number _ _ _).symm

section CheckedRounds

variable {graph : Adjacency} {step : Nat → Nat → Prop} (hgraph : graph.Follows step)
  (hsize : (graph.size : ℚ) ≠ 0)

include hsize

theorem replicate_checked :
    List.replicate graph.size (((1 : Nat) : Checked) / (graph.size : Checked)) =
      (List.replicate graph.size (((1 : Nat) : ℚ) / (graph.size : ℚ))).map .number := by
  rw [Checked.natCast_eq, Checked.natCast_eq, Checked.number_div _ hsize, List.map_replicate]

include hgraph

theorem nextRanks_checked (ranks : List ℚ) :
    graph.nextRanks (ranks.map Checked.number) = (graph.nextRanks ranks).map .number := by
  rw [nextRanks, nextRanks, List.map_map]
  apply List.map_congr_left
  intro node _
  have hincoming : ((graph.predecessors node).map fun other =>
      rankOf (ranks.map Checked.number) other / ((graph.successors other).length : Checked)) =
        ((graph.predecessors node).map fun other =>
          rankOf ranks other / ((graph.successors other).length : ℚ)).map .number := by
    rw [List.map_map]
    apply List.map_congr_left
    intro other hother
    have hout : ((graph.successors other).length : ℚ) ≠ 0 :=
      Nat.cast_ne_zero.mpr (hgraph.length_successors_pos hother).ne'
    rw [rankOf_checked, Checked.natCast_eq, Checked.number_div _ hout]
    rfl
  have hdangling : ∀ others : List Nat, others.map (rankOf (ranks.map Checked.number)) =
      (others.map (rankOf ranks)).map .number := by
    intro others
    rw [List.map_map]
    exact List.map_congr_left fun other _ => rankOf_checked ranks other
  simp only [hincoming, hdangling, scoreSum_checked]
  simp only [damping_checked, Checked.natCast_eq, Checked.number_div _ hsize, Checked.number_sub,
    Checked.number_mul, Checked.number_add]
  rfl

theorem ranksAfter_checked (rounds : Nat) :
    (graph.ranksAfter rounds : List Checked) = (graph.ranksAfter rounds : List ℚ).map .number := by
  induction rounds with
  | zero => exact replicate_checked hsize
  | succ rounds ih =>
      rw [ranksAfter] at ih
      rw [ranksAfter, ranksAfter, Function.iterate_succ_apply', Function.iterate_succ_apply', ih]
      exact nextRanks_checked hgraph hsize _

theorem ranksUpTo_checked (limit : Nat) (ranks : List ℚ) :
    graph.ranksUpTo limit (ranks.map Checked.number) =
      (graph.ranksUpTo limit ranks).map .number := by
  induction limit generalizing ranks with
  | zero => rfl
  | succ limit ih =>
      rw [ranksUpTo, ranksUpTo]
      simp only [nextRanks_checked hgraph hsize, List.zipWith_map, distance_checked,
        ← List.map_zipWith, scoreSum_checked, rankTolerance_checked, Checked.natCast_eq,
        Checked.number_mul, Checked.number_lt, ih]
      exact (apply_ite _ _ _ _).symm

theorem pageRank_checked :
    (graph.pageRank : List Checked) = (graph.pageRank : List ℚ).map .number := by
  rw [pageRank, replicate_checked hsize]
  exact ranksUpTo_checked hgraph hsize _ _

end CheckedRounds

end Adjacency

namespace Store

/-- After any number of rounds, the ranks of the nodes add up to one, and no node has less than the
part that all are given. -/
theorem distribution_of_ranks (history : List Mutation)
    (hnodes : (ofHistory history).nodes ≠ []) :
    let store := ofHistory history
    let size := store.nodes.length
    let graph := Adjacency.ofStore store
    (∀ rounds,
      let ranks : List ℚ := graph.ranksAfter rounds
      ranks.length = size ∧ ranks.sum = 1 ∧ (∀ rank ∈ ranks, 15 / 100 / size ≤ rank) ∧
      graph.ranksAfter (rounds + 1) = (List.range size).map
        (rankOnward store.Adjacent (Finset.range size) (Adjacency.rankOf ranks)) ∧
      -- no number was divided by zero
      (graph.ranksAfter rounds : List Checked) = ranks.map .number) ∧
    (∀ node, ∀ other ∈ graph.predecessors node, 0 < (graph.successors other).length) ∧
    -- the scores are the ranks after the last round
    (∃ rounds ≤ Adjacency.roundLimitOfRank,
      (graph.scores .pageRank : List ℚ) = graph.ranksAfter rounds) ∧
    (graph.scores .pageRank : List Checked) = (graph.scores .pageRank : List ℚ).map .number := by
  intro store size graph
  have hsound : store.Sound := Sound.ofHistory history
  have hpos : 0 < size := List.length_pos_iff.mpr hnodes
  have hsize : (graph.size : ℚ) ≠ 0 := by
    rw [Adjacency.size_ofStore hsound]
    exact Nat.cast_ne_zero.mpr hpos.ne'
  have hgraph : graph.Follows store.Adjacent := Adjacency.follows_ofStore hsound
  refine ⟨?_, ?_, graph.exists_pageRank_eq, Adjacency.pageRank_checked hgraph hsize⟩
  · intro rounds ranks
    have hranks := Adjacency.Distribution.ranksAfter hsound hpos rounds
    refine ⟨hranks.length_eq, hranks.sum_eq_one, hranks.le_of_mem, ?_,
      Adjacency.ranksAfter_checked hgraph hsize rounds⟩
    rw [Adjacency.ranksAfter, Function.iterate_succ_apply']
    exact Adjacency.nextRanks_ofStore hsound ranks
  · intro node other hother
    exact hgraph.length_successors_pos hother

/-- A node that refers to itself and in two ways to another, which refers to none. -/
def twofold : List Mutation :=
  [.addEdge { source := "a", target := "b", relation := .calls },
    .addEdge { source := "a", target := "b", relation := .imports },
    .addEdge { source := "a", target := "a", relation := .calls }]

theorem distribution_of_ranks_twofold :
    let graph := Adjacency.ofStore (ofHistory twofold)
    (ofHistory twofold).nodes ≠ [] ∧ graph.predecessors 1 = [0] ∧
      0 < (graph.successors 0).length ∧ (graph.scores .pageRank : List ℚ).sum = 1 := by
  intro graph
  have hnodes : (ofHistory twofold).nodes ≠ [] := by decide
  have hfront : graph.predecessors 1 = [0] := by decide
  obtain ⟨hranks, hpositive, ⟨rounds, -, hscores⟩, -⟩ := distribution_of_ranks twofold hnodes
  refine ⟨hnodes, hfront, hpositive 1 0 (hfront ▸ List.mem_singleton_self 0), ?_⟩
  rw [hscores]
  exact (hranks rounds).2.1

end Store

end CodeGraph
