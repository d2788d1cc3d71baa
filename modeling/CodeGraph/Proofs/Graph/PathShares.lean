import CodeGraph.Proofs.Graph.ShortestPaths
import Mathlib.Algebra.BigOperators.Field
import Mathlib.Algebra.BigOperators.Ring.Finset
import Mathlib.Algebra.Order.Field.Rat
import Mathlib.Tactic.FieldSimp

namespace CodeGraph

/-! The share of the shortest paths between two nodes that pass through a third.  Summed over all
goals, the shares of a node follow from those of the nodes one step farther from the start. -/

section PathNumbers

variable {α : Type} {step : α → α → Prop} {start goal : α} {count more : Nat}

noncomputable def pathNumber (step : α → α → Prop) (start : α) (count : Nat) (goal : α) : Nat :=
  (pathsOf step start count goal).ncard

theorem pathNumber_eq_zero (hnone : ¬Hops step start count goal) :
    pathNumber step start count goal = 0 := by
  have hempty : pathsOf step start count goal = ∅ := by
    apply Set.eq_empty_of_forall_notMem
    intro nodes hnodes
    exact hnone (hops_of_mem_pathsOf hnodes)
  rw [pathNumber, hempty, Set.ncard_empty]

theorem pathNumber_zero_self : pathNumber step start 0 start = 1 := by
  rw [pathNumber, Set.ncard_eq_one]
  exact ⟨[start], Set.ext fun nodes => mem_pathsOf_zero.trans (and_iff_right rfl)⟩

theorem pathNumber_zero_of_ne (hne : start ≠ goal) : pathNumber step start 0 goal = 0 := by
  apply pathNumber_eq_zero
  intro hops
  cases hops
  exact hne rfl

theorem Hops.step_of_one (hops : Hops step start 1 goal) : step start goal := by
  cases hops with
  | tail hfirst hstep =>
      cases hfirst
      exact hstep

theorem pathNumber_one (hstep : step start goal) : pathNumber step start 1 goal = 1 := by
  rw [pathNumber, Set.ncard_eq_one]
  exact ⟨[start, goal], Set.ext fun nodes => mem_pathsOf_one.trans (and_iff_right hstep)⟩

variable {nodes : Finset α} (hinside : ∀ before after, step before after → after ∈ nodes)
  (hstart : start ∈ nodes)

include hinside hstart

theorem Hops.mem_nodes (hops : Hops step start count goal) : goal ∈ nodes := by
  induction hops with
  | refl => exact hstart
  | tail _ hstep _ => exact hinside _ _ hstep

theorem Hops.pathNumber_pos (hops : Hops step start count goal) :
    0 < pathNumber step start count goal := by
  rw [pathNumber, Set.ncard_pos (finite_pathsOf hinside hstart count goal)]
  exact hops.exists_mem_pathsOf

theorem Hops.pathNumber_ne_zero (hops : Hops step start count goal) :
    (pathNumber step start count goal : ℚ) ≠ 0 :=
  Nat.cast_ne_zero.mpr (hops.pathNumber_pos hinside hstart).ne'

variable [DecidableEq α]

theorem pathNumber_add {middles : Finset α} (hsubset : middles ⊆ nodes)
    (hmiddles : ∀ middle, Hops step start count middle → Hops step middle more goal →
      middle ∈ middles) :
    pathNumber step start (count + more) goal =
      ∑ middle ∈ middles,
        pathNumber step start count middle * pathNumber step middle more goal := by
  rw [pathNumber, ncard_pathsOf_add hinside hstart]
  symm
  apply Finset.sum_subset hsubset
  intro middle _ hother
  by_contra hsome
  obtain ⟨hfront, hback⟩ := Nat.mul_ne_zero_iff.mp hsome
  obtain ⟨front, hfirst⟩ := Set.nonempty_of_ncard_ne_zero hfront
  obtain ⟨back, hsecond⟩ := Set.nonempty_of_ncard_ne_zero hback
  exact hother (hmiddles middle (hops_of_mem_pathsOf hfirst) (hops_of_mem_pathsOf hsecond))

/-- A shortest path comes from one of the nodes that are one step nearer. -/
theorem Distance.pathNumber_eq_sum (hgoal : Distance step start (count + 1) goal)
    {befores : Finset α}
    (hbefores : ∀ before, before ∈ befores ↔ Distance step start count before ∧ step before goal) :
    pathNumber step start (count + 1) goal =
      ∑ before ∈ befores, pathNumber step start count before := by
  have hsubset : befores ⊆ nodes := by
    intro before hbefore
    exact ((hbefores before).mp hbefore).1.reached.mem_nodes hinside hstart
  rw [pathNumber_add hinside hstart hsubset]
  · apply Finset.sum_congr rfl
    intro before hbefore
    rw [pathNumber_one ((hbefores before).mp hbefore).2, Nat.mul_one]
  · intro before hfirst hlast
    refine (hbefores before).mpr ⟨⟨hfirst, ?_⟩, hlast.step_of_one⟩
    intro fewer hops
    exact Nat.le_of_succ_le_succ (hgoal.least _ (hops.tail hlast.step_of_one))

end PathNumbers

/-! Shares -/

section PathShares

variable {α : Type} {step : α → α → Prop} {start node goal : α} {count more : Nat}

/-- The fraction of the shortest paths between two nodes that pass through a node. -/
noncomputable def pathShare (step : α → α → Prop) (start goal node : α) : ℚ :=
  (shortestPaths step start goal ∩ {nodes | node ∈ nodes}).ncard /
    (shortestPaths step start goal).ncard

theorem pathShare_eq (hnode : Distance step start count node)
    (hgoal : Distance step start (count + more) goal) :
    pathShare step start goal node =
      pathNumber step start count node * pathNumber step node more goal /
        pathNumber step start (count + more) goal := by
  rw [pathShare, shortestPaths_eq hgoal, pathsOf_inter_mem hnode hgoal, ncard_pathsOf_inter,
    Nat.cast_mul]
  rfl

theorem pathShare_eq_zero (hgoal : Distance step start count goal) (hne : goal ≠ node)
    (hfar : ∀ fewer < count, ¬Distance step start fewer node) :
    pathShare step start goal node = 0 := by
  have hempty : shortestPaths step start goal ∩ {nodes | node ∈ nodes} = ∅ := by
    apply Set.eq_empty_of_forall_notMem
    rintro nodes ⟨hnodes, hmem⟩
    rw [shortestPaths_eq hgoal] at hnodes
    obtain ⟨fewer, hle, hplace, hdistance⟩ := hgoal.exists_of_mem hnodes hmem
    rcases Nat.lt_or_eq_of_le hle with hlt | rfl
    · exact hfar fewer hlt hdistance
    · have hlast := getElem?_append_of_mem hnodes []
      rw [List.append_nil, hplace] at hlast
      exact hne (Option.some.inj hlast).symm
  rw [pathShare, hempty, Set.ncard_empty, Nat.cast_zero, zero_div]

variable {nodes : Finset α}

noncomputable def reachedFrom (step : α → α → Prop) (nodes : Finset α) (start : α) : Finset α :=
  open scoped Classical in {goal ∈ nodes | Reaches step start goal}

theorem mem_reachedFrom :
    goal ∈ reachedFrom step nodes start ↔ goal ∈ nodes ∧ Reaches step start goal := by
  classical
  exact Finset.mem_filter

variable [DecidableEq α]

/-- The shares of a node in the paths from one start, over all other goals. -/
noncomputable def dependency (step : α → α → Prop) (nodes : Finset α) (start node : α) : ℚ :=
  ∑ goal ∈ (reachedFrom step nodes start).erase node, pathShare step start goal node

theorem dependency_of_not_reaches (hnone : ¬Reaches step start node) :
    dependency step nodes start node = 0 := by
  apply Finset.sum_eq_zero
  intro goal hgoal
  obtain ⟨hne, hmem⟩ := Finset.mem_erase.mp hgoal
  obtain ⟨-, hreaches⟩ := mem_reachedFrom.mp hmem
  exact pathShare_eq_zero hreaches.distance hne fun fewer _ hdistance =>
    hnone ⟨fewer, hdistance.reached⟩

/-- The goals at this distance or farther. -/
noncomputable def beyond (step : α → α → Prop) (nodes : Finset α) (start : α) (count : Nat) :
    Finset α :=
  {goal ∈ reachedFrom step nodes start | count ≤ hopCount step start goal}

omit [DecidableEq α] in
theorem mem_beyond :
    goal ∈ beyond step nodes start count ↔
      goal ∈ reachedFrom step nodes start ∧ count ≤ hopCount step start goal :=
  Finset.mem_filter

/-- What the paths to a goal give to a node at some distance.  Where the goal is as far from the
start, the node is given one if it is the goal and nothing otherwise. -/
noncomputable def throughShare (step : α → α → Prop) (start : α) (count : Nat) (node goal : α) :
    ℚ :=
  pathNumber step start count node *
      pathNumber step node (hopCount step start goal - count) goal /
    pathNumber step start (hopCount step start goal) goal

omit [DecidableEq α] in
theorem throughShare_eq_pathShare (hnode : Distance step start count node)
    (hgoal : goal ∈ beyond step nodes start count) :
    throughShare step start count node goal = pathShare step start goal node := by
  obtain ⟨hmem, hle⟩ := mem_beyond.mp hgoal
  have hdistance := (mem_reachedFrom.mp hmem).2.distance
  obtain ⟨more, hmore⟩ := Nat.exists_eq_add_of_le hle
  rw [hmore] at hdistance
  rw [throughShare, pathShare_eq hnode hdistance, hmore, Nat.add_sub_cancel_left]

theorem dependency_eq_sum_erase (hnode : Distance step start count node) :
    dependency step nodes start node =
      ∑ goal ∈ (beyond step nodes start count).erase node,
        throughShare step start count node goal := by
  symm
  apply Finset.sum_subset_zero_on_sdiff
  · exact Finset.erase_subset_erase node (Finset.filter_subset _ _)
  · intro goal hgoal
    obtain ⟨hall, hnot⟩ := Finset.mem_sdiff.mp hgoal
    obtain ⟨hne, hmem⟩ := Finset.mem_erase.mp hall
    refine pathShare_eq_zero (mem_reachedFrom.mp hmem).2.distance hne ?_
    intro fewer hfewer hdistance
    rw [← hnode.unique hdistance] at hfewer
    exact hnot (Finset.mem_erase.mpr ⟨hne, mem_beyond.mpr ⟨hmem, hfewer.le⟩⟩)
  · intro goal hgoal
    exact throughShare_eq_pathShare hnode (Finset.mem_of_mem_erase hgoal)

theorem dependency_eq_sum_beyond (hnode : Distance step start count node) :
    dependency step nodes start node =
      ∑ goal ∈ beyond step nodes start (count + 1), throughShare step start count node goal := by
  rw [dependency_eq_sum_erase hnode]
  symm
  apply Finset.sum_subset
  · intro goal hgoal
    obtain ⟨hmem, hlt⟩ := mem_beyond.mp hgoal
    refine Finset.mem_erase.mpr ⟨?_, mem_beyond.mpr ⟨hmem, Nat.le_of_succ_le hlt⟩⟩
    rintro rfl
    exact Nat.ne_of_lt hlt hnode.hopCount_eq.symm
  · intro goal hgoal hnear
    obtain ⟨hne, hbeyond⟩ := Finset.mem_erase.mp hgoal
    obtain ⟨hmem, hle⟩ := mem_beyond.mp hbeyond
    have hsame : hopCount step start goal - count = 0 := by
      have hless : ¬count + 1 ≤ hopCount step start goal :=
        fun hfar => hnear (mem_beyond.mpr ⟨hmem, hfar⟩)
      omega
    rw [throughShare, hsame, pathNumber_zero_of_ne (Ne.symm hne), Nat.cast_zero, mul_zero, zero_div]

variable (hinside : ∀ before after, step before after → after ∈ nodes) (hstart : start ∈ nodes)

include hinside hstart

theorem one_add_dependency (hnode : Distance step start count node) :
    1 + dependency step nodes start node =
      ∑ goal ∈ beyond step nodes start count, throughShare step start count node goal := by
  have hmem : node ∈ beyond step nodes start count := by
    refine mem_beyond.mpr ⟨mem_reachedFrom.mpr ⟨?_, count, hnode.reached⟩, hnode.hopCount_eq.ge⟩
    exact hnode.reached.mem_nodes hinside hstart
  have hself : throughShare step start count node node = 1 := by
    rw [throughShare, hnode.hopCount_eq, Nat.sub_self, pathNumber_zero_self, Nat.cast_one, mul_one,
      div_self (hnode.reached.pathNumber_ne_zero hinside hstart)]
  rw [dependency_eq_sum_erase hnode, ← hself, Finset.add_sum_erase _ _ hmem]

variable {afters : Finset α}
  (hafters : ∀ after, after ∈ afters ↔ step node after ∧ Distance step start (count + 1) after)
  (hnode : Distance step start count node)

include hafters hnode

/-- The paths to a farther goal go on to one of the nodes that are one step farther. -/
theorem pathNumber_eq_sum_afters (hgoal : goal ∈ beyond step nodes start (count + 1)) :
    pathNumber step node (hopCount step start goal - count) goal =
      ∑ after ∈ afters, pathNumber step after (hopCount step start goal - (count + 1)) goal := by
  obtain ⟨hmem, hle⟩ := mem_beyond.mp hgoal
  have hdistance := (mem_reachedFrom.mp hmem).2.distance
  obtain ⟨more, hmore⟩ := Nat.exists_eq_add_of_le hle
  have hcount : count + 1 + more - count = 1 + more := by omega
  rw [hmore] at hdistance ⊢
  rw [hcount, Nat.add_sub_cancel_left]
  have hsubset : afters ⊆ nodes := by
    intro after hafter
    exact hinside _ _ ((hafters after).mp hafter).1
  rw [pathNumber_add hinside (hnode.reached.mem_nodes hinside hstart) hsubset]
  · apply Finset.sum_congr rfl
    intro after hafter
    rw [pathNumber_one ((hafters after).mp hafter).1, Nat.one_mul]
  · intro after hfirst hrest
    refine (hafters after).mpr ⟨hfirst.step_of_one, hnode.reached.tail hfirst.step_of_one, ?_⟩
    intro fewer hops
    exact Nat.le_of_add_le_add_right (hdistance.least _ (hops.append hrest))

theorem throughShare_eq_sum_afters (hgoal : goal ∈ beyond step nodes start (count + 1)) :
    throughShare step start count node goal =
      ∑ after ∈ afters,
        (pathNumber step start count node : ℚ) / pathNumber step start (count + 1) after *
          throughShare step start (count + 1) after goal := by
  rw [throughShare, pathNumber_eq_sum_afters hinside hstart hafters hnode hgoal, Nat.cast_sum,
    Finset.mul_sum, Finset.sum_div]
  apply Finset.sum_congr rfl
  intro after hafter
  have hsome := ((hafters after).mp hafter).2.reached.pathNumber_ne_zero hinside hstart
  rw [throughShare]
  field_simp

/-- The dependency of a node from those of the nodes one step farther. -/
theorem dependency_eq_sum_afters :
    dependency step nodes start node =
      ∑ after ∈ afters, (pathNumber step start count node : ℚ) /
        pathNumber step start (count + 1) after * (1 + dependency step nodes start after) := by
  rw [dependency_eq_sum_beyond hnode, Finset.sum_congr rfl fun goal hgoal =>
    throughShare_eq_sum_afters hinside hstart hafters hnode hgoal, Finset.sum_comm]
  apply Finset.sum_congr rfl
  intro after hafter
  rw [one_add_dependency hinside hstart ((hafters after).mp hafter).2, Finset.mul_sum]

end PathShares

end CodeGraph
