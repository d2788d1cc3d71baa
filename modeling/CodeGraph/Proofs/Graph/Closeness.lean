import CodeGraph.Graph.Centrality
import CodeGraph.Proofs.Graph.Adjacency
import CodeGraph.Proofs.Graph.Checked
import Mathlib.Algebra.BigOperators.Group.Finset.Basic
import Mathlib.Algebra.Order.BigOperators.Group.Finset
import Mathlib.Tactic.Positivity

namespace CodeGraph

/-! Closeness.  A search against the links counts the nodes that lead to a node and adds up how far
they are from it. -/

namespace Store

/-- The other nodes with a way to a node. -/
noncomputable def leadingTo (store : Store) (node : Nat) : Finset Nat :=
  open scoped Classical in
  {other ∈ Finset.range store.nodes.length | other ≠ node ∧ Reaches store.Adjacent other node}

/-- How far these are from the node, all in all. -/
noncomputable def hopsLeadingTo (store : Store) (node : Nat) : Nat :=
  ∑ other ∈ store.leadingTo node, hopCount store.Adjacent other node

theorem mem_leadingTo {store : Store} {node other : Nat} :
    other ∈ store.leadingTo node ↔
      other < store.nodes.length ∧ other ≠ node ∧ Reaches store.Adjacent other node := by
  simp [leadingTo]

theorem card_leadingTo_lt {store : Store} {node : Nat} (hnode : node < store.nodes.length) :
    (store.leadingTo node).card < store.nodes.length := by
  have hinside : store.leadingTo node ⊆ (Finset.range store.nodes.length).erase node := by
    intro other hother
    obtain ⟨hlt, hne, -⟩ := mem_leadingTo.mp hother
    exact Finset.mem_erase.mpr ⟨hne, Finset.mem_range.mpr hlt⟩
  have hcard := Finset.card_le_card hinside
  rw [Finset.card_erase_of_mem (Finset.mem_range.mpr hnode), Finset.card_range] at hcard
  omega

theorem card_le_hopsLeadingTo (store : Store) (node : Nat) :
    (store.leadingTo node).card ≤ store.hopsLeadingTo node := by
  rw [hopsLeadingTo, Finset.card_eq_sum_ones]
  apply Finset.sum_le_sum
  intro other hother
  obtain ⟨-, hne, hreaches⟩ := mem_leadingTo.mp hother
  by_contra hnone
  have hzero : hopCount store.Adjacent other node = 0 := by omega
  have hdistance := hreaches.distance
  rw [hzero] at hdistance
  cases hdistance.reached
  exact hne rfl

theorem hopsLeadingTo_eq_zero_iff {store : Store} {node : Nat} :
    store.hopsLeadingTo node = 0 ↔ (store.leadingTo node).card = 0 := by
  constructor
  · intro hzero
    exact Nat.eq_zero_of_le_zero (hzero ▸ store.card_le_hopsLeadingTo node)
  · intro hzero
    rw [hopsLeadingTo, Finset.card_eq_zero.mp hzero, Finset.sum_empty]

end Store

/-! Distances of levels -/

theorem map_fst_levelDistances (first : Nat) (levels : List (List Nat)) :
    (levelDistances first levels).map Prod.fst = levels.flatten := by
  induction levels generalizing first with
  | nil => rfl
  | cons level rest ih =>
      rw [levelDistances, List.map_append, ih, List.map_map, List.flatten_cons]
      exact congrArg (· ++ rest.flatten) (List.map_id level)

theorem map_snd_levelDistances {count : Nat → Nat} {levels : List (List Nat)} {first : Nat}
    (hcount : ∀ place level, levels[place]? = some level →
      ∀ node ∈ level, count node = first + place + 1) :
    (levelDistances first levels).map Prod.snd = levels.flatten.map count := by
  induction levels generalizing first with
  | nil => rfl
  | cons level rest ih =>
      have hrest : ∀ place other, rest[place]? = some other →
          ∀ node ∈ other, count node = first + 1 + place + 1 := by
        intro place other hother node hnode
        rw [hcount (place + 1) other hother node hnode]
        omega
      rw [levelDistances, List.map_append, ih hrest, List.map_map, List.flatten_cons,
        List.map_append]
      congr 1
      exact List.map_congr_left fun node hnode => (hcount 0 level rfl node hnode).symm

namespace Adjacency

/-- What a search has met, counted and added up. -/
def nearnessOf (course : Course) : Nearness :=
  { total := sumOf (course.met.map Prod.snd), reached := course.met.length }

theorem nearnessOf_note (course : Course) (event : SearchEvent) :
    nearnessOf (course.note event) = (nearnessOf course).note event := by
  cases event with
  | visits node => rfl
  | meets node distance => simp [nearnessOf, Course.note, Nearness.note, sumOf_append]
  | steps node target => rfl

section Levels

variable {store : Store} (hsound : store.Sound)

include hsound

theorem lt_of_flip_adjacent (before after : Nat) (hstep : flip store.Adjacent before after) :
    after < store.nodes.length :=
  size_ofStore hsound ▸ ((follows_ofStore hsound).lt_size _ _ hstep).1

variable {node : Nat} (hnode : node < store.nodes.length)

include hnode

theorem toFinset_flatten_reach :
    (reach (ofStore store).predecessors store.nodes.length node).flatten.toFinset =
      store.leadingTo node := by
  ext other
  rw [List.mem_toFinset, Store.mem_leadingTo, mem_flatten_reach
    (follows_ofStore hsound).mem_predecessors (lt_of_flip_adjacent hsound) hnode]
  refine ⟨?_, fun hother => ⟨hother.2.1, reaches_flip.mpr hother.2.2⟩⟩
  rintro ⟨hne, count, hops⟩
  refine ⟨?_, hne, reaches_flip.mp ⟨count, hops⟩⟩
  cases hops with
  | refl => exact absurd rfl hne
  | tail _ hstep => exact lt_of_flip_adjacent hsound _ _ hstep

/-- The search against the links meets what leads to a node. -/
theorem nearness_ofStore :
    notesOfSearch Nearness.note (ofStore store).predecessors (ofStore store).size node {} =
      { total := store.hopsLeadingTo node, reached := (store.leadingTo node).card } := by
  have hlists := listsDistances_reach (follows_ofStore hsound).mem_predecessors
    store.nodes.length node
  have hinside : ∀ other, (ofStore store).predecessors other ⊆ List.range store.nodes.length := by
    intro other before hbefore
    rw [(follows_ofStore hsound).mem_predecessors] at hbefore
    exact List.mem_range.mpr (lt_of_flip_adjacent hsound other before hbefore)
  have hcount : ∀ place level,
      (reach (ofStore store).predecessors store.nodes.length node)[place]? = some level →
        ∀ other ∈ level, hopCount store.Adjacent other node = 0 + place + 1 := by
    intro place level hlevel other hother
    have hdistance := (hlists.mem_iff place level hlevel other).mp hother
    rw [(distance_flip.mp hdistance).hopCount_eq]
    omega
  rw [size_ofStore hsound]
  refine (notesOfSearch_eq nearnessOf_note _ _ _).trans ?_
  rw [notesOfSearch_course hinside hnode, nearnessOf, map_snd_levelDistances hcount,
    ← List.length_map Prod.fst, map_fst_levelDistances, Store.hopsLeadingTo,
    ← toFinset_flatten_reach hsound hnode, List.sum_toFinset _ hlists.nodup_flatten,
    List.toFinset_card_of_nodup hlists.nodup_flatten]
  rfl

/-- The score in whatever numbers it is computed. -/
theorem closenessScore_ofStore {α : Type} [Mul α] [Div α] [NatCast α] :
    ((ofStore store).closenessScore node : α) =
      if (store.leadingTo node).card = 0 then ((0 : Nat) : α)
      else
        ((store.leadingTo node).card : α) / (store.hopsLeadingTo node : α) *
          (((store.leadingTo node).card : α) / ((store.nodes.length - 1 : Nat) : α)) := by
  have hcard := Store.card_leadingTo_lt hnode
  rw [closenessScore, nearness_ofStore hsound hnode]
  simp only [size_ofStore hsound, Store.hopsLeadingTo_eq_zero_iff]
  by_cases hnone : (store.leadingTo node).card = 0
  · simp only [hnone, true_or, if_true]
  · have hseveral : ¬store.nodes.length ≤ 1 := by omega
    simp only [hnone, hseveral, or_self, if_false]

theorem closenessScore_ofStore_checked :
    ((ofStore store).closenessScore node : Checked) =
      .number ((ofStore store).closenessScore node) := by
  have hcard := Store.card_leadingTo_lt hnode
  rw [closenessScore_ofStore hsound hnode, closenessScore_ofStore hsound hnode]
  by_cases hnone : (store.leadingTo node).card = 0
  · rw [if_pos hnone, if_pos hnone, Checked.natCast_eq]
  · have hhops : (store.hopsLeadingTo node : ℚ) ≠ 0 :=
      Nat.cast_ne_zero.mpr fun hzero => hnone (Store.hopsLeadingTo_eq_zero_iff.mp hzero)
    have hothers : ((store.nodes.length - 1 : Nat) : ℚ) ≠ 0 := Nat.cast_ne_zero.mpr (by omega)
    simp only [if_neg hnone, Checked.natCast_eq, Checked.number_div _ hhops,
      Checked.number_div _ hothers, Checked.number_mul]

theorem closenessScore_ofStore_of_ne_zero (hsome : (store.leadingTo node).card ≠ 0) :
    ((ofStore store).closenessScore node : ℚ) =
      (store.leadingTo node).card * (store.leadingTo node).card /
        (store.hopsLeadingTo node * (store.nodes.length - 1)) := by
  rw [closenessScore_ofStore hsound hnode, if_neg hsome, div_mul_div_comm,
    Nat.cast_pred (Nat.zero_lt_of_lt hnode)]

theorem closenessScore_ofStore_mem_Icc :
    ((ofStore store).closenessScore node : ℚ) ∈ Set.Icc 0 1 := by
  by_cases hnone : (store.leadingTo node).card = 0
  · rw [closenessScore_ofStore hsound hnode, if_pos hnone]
    simp
  · have hcard : (store.leadingTo node).card ≤ store.nodes.length - 1 :=
      Nat.le_pred_of_lt (Store.card_leadingTo_lt hnode)
    have hmul := Nat.mul_le_mul (store.card_le_hopsLeadingTo node) hcard
    rw [closenessScore_ofStore hsound hnode, if_neg hnone, div_mul_div_comm]
    refine ⟨by positivity, div_le_one_of_le₀ ?_ (by positivity)⟩
    exact_mod_cast hmul

end Levels

end Adjacency

namespace Store

/-- The closeness of a node is the share of the other nodes that lead to it, divided by their mean
distance. -/
theorem closeness_by_distances (history : List Mutation) :
    let store := ofHistory history
    let size := store.nodes.length
    let scores : List ℚ := (Adjacency.ofStore store).scores .closeness
    scores.length = size ∧
    (∀ node < size, ∃ score, scores[node]? = some score ∧ 0 ≤ score ∧ score ≤ 1 ∧
      ((∀ other < size, other ≠ node → ¬Reaches store.Adjacent other node) → score = 0) ∧
      ((∃ other < size, other ≠ node ∧ Reaches store.Adjacent other node) →
        score = (store.leadingTo node).card * (store.leadingTo node).card /
          (store.hopsLeadingTo node * (size - 1)))) ∧
    -- no number was divided by zero
    ((Adjacency.ofStore store).scores .closeness : List Checked) = scores.map .number := by
  intro store size scores
  have hsound : store.Sound := Sound.ofHistory history
  have hnodes : (Adjacency.ofStore store).nodes = List.range size := Adjacency.nodes_ofStore hsound
  have hscores : scores =
      (List.range size).map fun node => ((Adjacency.ofStore store).closenessScore node : ℚ) := by
    rw [← hnodes]
    rfl
  refine ⟨?_, ?_, ?_⟩
  · rw [hscores, List.length_map, List.length_range]
  · intro node hnode
    have hbounds := Adjacency.closenessScore_ofStore_mem_Icc hsound hnode
    refine ⟨_, ?_, hbounds.1, hbounds.2, ?_, ?_⟩
    · rw [hscores, List.getElem?_map, List.getElem?_range hnode]
      rfl
    · intro hnone
      have hempty : (store.leadingTo node).card = 0 := by
        rw [Finset.card_eq_zero, Finset.eq_empty_iff_forall_notMem]
        intro other hother
        obtain ⟨hlt, hne, hreaches⟩ := mem_leadingTo.mp hother
        exact hnone other hlt hne hreaches
      rw [Adjacency.closenessScore_ofStore hsound hnode, if_pos hempty, Nat.cast_zero]
    · rintro ⟨other, hother⟩
      have hmem : other ∈ store.leadingTo node := mem_leadingTo.mpr hother
      exact Adjacency.closenessScore_ofStore_of_ne_zero hsound hnode
        (Finset.card_ne_zero_of_mem hmem)
  · rw [hscores, List.map_map]
    show (Adjacency.ofStore store).nodes.map (Adjacency.ofStore store).closenessScore = _
    rw [hnodes]
    apply List.map_congr_left
    intro node hnode
    exact Adjacency.closenessScore_ofStore_checked hsound (List.mem_range.mp hnode)

end Store

end CodeGraph
