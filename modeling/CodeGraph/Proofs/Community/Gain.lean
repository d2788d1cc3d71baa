import CodeGraph.Proofs.Community.Tracking
import Mathlib.Algebra.BigOperators.Group.Finset.Piecewise
import Mathlib.Algebra.Order.Ring.Rat
import Mathlib.Data.Rat.Cast.Order
import Mathlib.Tactic.Ring
import Mathlib.Tactic.Linarith

namespace CodeGraph

/-! In exact arithmetic, the gain of a move is what it adds to the modularity, in units of the
weight of all links. -/

namespace Network

variable (network : Network) (resolution : ℚ)

theorem groupModularity_nil : network.groupModularity resolution [] = 0 := by
  simp [groupModularity, groupInside, groupDegree]

theorem groupModularity_perm {group others : List Nat} (hperm : group.Perm others) :
    network.groupModularity resolution group = network.groupModularity resolution others := by
  rw [groupModularity, groupModularity, groupInside_perm _ hperm, groupDegree_perm _ hperm]

theorem modularity_eq_sum (groups : List (List Nat)) :
    network.modularity resolution groups =
      (groups.map (network.groupModularity resolution)).sum := by
  rw [modularity]
  split
  · next hnone =>
      have hgroup : ∀ group ∈ groups, network.groupModularity resolution group = 0 := by
        intro group _
        simp [groupModularity, hnone]
      rw [List.map_congr_left hgroup]
      simp
  · rw [Nat.cast_zero, List.sum_eq_foldl]

variable {network}

/-- A node that joins a group adds what it is by itself, and what it is worth in the group. -/
theorem Undirected.groupModularity_cons (hundirected : network.Undirected) {node : Nat}
    {group : List Nat} (hnodup : (node :: group).Nodup) :
    network.groupModularity resolution (node :: group) =
      network.groupModularity resolution group + (network.groupModularity resolution [node] +
        worth resolution network.total (network.linkTo node group) (network.groupDegree group)
          (network.degree node) / ((network.total : ℚ) / 2)) := by
  have hinside := hundirected.groupInside_cons hnodup
  have hsingle : network.groupInside [node] = network.between node node := by
    rw [hundirected.groupInside_cons (List.nodup_singleton node), linkTo_nil]
    simp [groupInside]
  have hdegree : network.groupDegree [node] = network.degree node := Nat.add_zero _
  simp only [groupModularity, worth, hinside, hsingle, hdegree, groupDegree_cons]
  push_cast
  ring

end Network

section Moves

variable {network : Network} {assignment : Assignment} (resolution : ℚ)

theorem Tracks.modularity_blocks (htracks : Tracks network assignment) :
    network.modularity resolution assignment.blocks =
      ∑ community ∈ Finset.range network.size,
        network.groupModularity resolution (assignment.members community) := by
  rw [network.modularity_eq_sum, Assignment.blocks, List.map_map,
    ← List.sum_toFinset _ assignment.nodup_labels]
  refine Finset.sum_subset ?_ ?_
  · intro label hlabel
    obtain ⟨node, hnode⟩ := Assignment.mem_labels.mp (List.mem_toFinset.mp hlabel)
    obtain ⟨hlt, hcommunity⟩ := Assignment.mem_members.mp hnode
    rw [Finset.mem_range, ← hcommunity]
    exact htracks.communityOf_lt node (htracks.size_eq ▸ hlt)
  · intro label _ hnone
    have hempty : assignment.members label = [] := by
      rw [List.eq_nil_iff_forall_not_mem]
      intro node hnode
      exact hnone (List.mem_toFinset.mpr (Assignment.mem_labels.mpr ⟨node, hnode⟩))
    rw [Function.comp_apply, hempty, network.groupModularity_nil]

variable (hundirected : network.Undirected) (htracks : Tracks network assignment)
variable {node : Nat} (hlt : node < network.size)

include hundirected htracks hlt

theorem Tracks.modularity_around :
    network.modularity resolution assignment.blocks =
      ∑ community ∈ Finset.range network.size,
          network.groupModularity resolution (assignment.others node community) +
        (network.groupModularity resolution [node] +
          worthIn network resolution network.total assignment node
            (assignment.communityOf node) / ((network.total : ℚ) / 2)) := by
  have hmembers : ∀ community ∈ Finset.range network.size,
      network.groupModularity resolution (assignment.members community) =
        network.groupModularity resolution (assignment.others node community) +
          if assignment.communityOf node = community then
            network.groupModularity resolution [node] +
              worthIn network resolution network.total assignment node community /
                ((network.total : ℚ) / 2)
          else 0 := by
    intro community _
    rw [network.groupModularity_perm resolution
      (Assignment.members_perm (htracks.size_eq ▸ hlt) community)]
    split
    · rw [hundirected.groupModularity_cons resolution
        (assignment.nodup_cons_others node community), worthIn]
    · rw [add_zero]
  rw [htracks.modularity_blocks, Finset.sum_congr rfl hmembers, Finset.sum_add_distrib,
    Finset.sum_ite_eq, if_pos (Finset.mem_range.mpr (htracks.communityOf_lt node hlt))]

theorem modularity_reassign {target : Nat} (htarget : target < network.size) :
    network.modularity resolution (assignment.reassign network node target).blocks =
      network.modularity resolution assignment.blocks +
        gainIn network resolution network.total assignment node target /
          ((network.total : ℚ) / 2) := by
  have hin : node < assignment.community.size := htracks.size_eq ▸ hlt
  rw [(htracks.reassign hlt htarget).modularity_around resolution hundirected hlt,
    htracks.modularity_around resolution hundirected hlt, gainIn,
    Assignment.communityOf_reassign hin, if_pos rfl]
  simp only [worthIn, Assignment.others_reassign hin]
  ring

end Moves

/-! The best move -/

theorem le_better (best candidate : Nat × ℚ) :
    best.2 ≤ (better best candidate).2 ∧ candidate.2 ≤ (better best candidate).2 := by
  rw [better]
  split
  · next hbetter =>
      simp only [Bool.or_eq_true, Bool.and_eq_true, decide_eq_true_eq, beq_iff_eq] at hbetter
      rcases hbetter with hgreater | ⟨hequal, -⟩
      · exact ⟨hgreater.le, le_refl _⟩
      · exact ⟨hequal.ge, le_refl _⟩
  · next hworse =>
      simp only [Bool.or_eq_true, decide_eq_true_eq, not_or, not_lt] at hworse
      exact ⟨le_refl _, hworse.1⟩

theorem le_foldl_better (start : Nat × ℚ) (candidates : List (Nat × ℚ)) :
    start.2 ≤ (candidates.foldl better start).2 := by
  induction candidates generalizing start with
  | nil => exact le_refl _
  | cons candidate rest ih => exact (le_better start candidate).1.trans (ih _)

theorem le_foldl_better_of_mem (start : Nat × ℚ) {candidates : List (Nat × ℚ)}
    {candidate : Nat × ℚ} (hmem : candidate ∈ candidates) :
    candidate.2 ≤ (candidates.foldl better start).2 := by
  induction candidates generalizing start with
  | nil => cases hmem
  | cons first rest ih =>
      rcases List.mem_cons.mp hmem with rfl | hrest
      · exact (le_better start candidate).2.trans (le_foldl_better _ rest)
      · exact ih _ hrest

theorem snd_moveOf_nonneg (network : Network) (resolution : ℚ) (total : Nat)
    (assignment : Assignment) (node : Nat) :
    0 ≤ (moveOf network resolution total assignment node).2 :=
  le_foldl_better (assignment.communityOf node, 0) _

section Best

variable {network : Network} {assignment : Assignment} (resolution : ℚ)
variable (hundirected : network.Undirected) (htracks : Tracks network assignment)

include hundirected htracks

theorem snd_moveOf {node : Nat} (hlt : node < network.size) :
    (moveOf network resolution network.total assignment node).2 =
      gainIn network resolution network.total assignment node
        (moveOf network resolution network.total assignment node).1 := by
  rcases moveOf_cases hundirected.bounded htracks resolution network.total hlt with
    hstay | ⟨community, -, hmove⟩
  · rw [hstay, gainIn, sub_self]
    rfl
  · rw [hmove]

theorem gainIn_targetOf {node : Nat} (hlt : node < network.size) :
    gainIn network resolution network.total assignment node
        (targetOf network resolution network.total assignment node) =
      (moveOf network resolution network.total assignment node).2 := by
  rw [targetOf, Nat.cast_zero]
  split
  · exact (snd_moveOf resolution hundirected htracks hlt).symm
  · next hnone =>
      have hzero := le_antisymm (not_lt.mp hnone) (snd_moveOf_nonneg _ _ _ _ node)
      rw [hzero, gainIn, sub_self]

/-- A node moves if there is something to gain. -/
theorem targetOf_ne_iff (node : Nat) :
    targetOf network resolution network.total assignment node ≠ assignment.communityOf node ↔
      0 < (moveOf network resolution network.total assignment node).2 := by
  by_cases hlt : node < network.size
  · constructor
    · intro hne
      by_contra hnone
      rw [targetOf, Nat.cast_zero, if_neg hnone] at hne
      exact hne rfl
    · intro hgain hown
      rw [← gainIn_targetOf resolution hundirected htracks hlt, hown, gainIn, sub_self] at hgain
      exact lt_irrefl 0 hgain
  · have hle := Nat.le_of_not_lt hlt
    rw [targetOf_of_size_le hle, moveOf_of_size_le hle]
    simp

/-- A visit leaves a node where it is worth the most. -/
theorem worthIn_le_targetOf {node : Nat} (hlt : node < network.size) {entry : Nat × Nat}
    (hentry : entry ∈ network.neighbours node) (hne : entry.1 ≠ node) :
    worthIn network resolution network.total assignment node (assignment.communityOf entry.1) ≤
      worthIn network resolution network.total assignment node
        (targetOf network resolution network.total assignment node) := by
  have hbest := gainIn_targetOf resolution hundirected htracks hlt
  rw [moveOf_eq hundirected.bounded htracks resolution network.total hlt] at hbest
  have hle := le_foldl_better_of_mem (assignment.communityOf node, ((0 : Nat) : ℚ))
    (List.mem_map_of_mem (f := fun community => (community,
      gainIn network resolution network.total assignment node community))
      (communityOf_mem_adjoining network assignment node hentry hne))
  rw [← hbest] at hle
  simpa [gainIn] using hle

theorem worthIn_lt_targetOf {node : Nat} (hlt : node < network.size)
    (hne : targetOf network resolution network.total assignment node ≠
      assignment.communityOf node) :
    worthIn network resolution network.total assignment node (assignment.communityOf node) <
      worthIn network resolution network.total assignment node
        (targetOf network resolution network.total assignment node) := by
  have hgain := (targetOf_ne_iff resolution hundirected htracks node).mp hne
  rw [← gainIn_targetOf resolution hundirected htracks hlt, gainIn, sub_pos] at hgain
  exact hgain

theorem modularity_visit (node : Nat) :
    network.modularity resolution
        (visit network resolution network.total (assignment, false) node).1.blocks =
      network.modularity resolution assignment.blocks +
        (moveOf network resolution network.total assignment node).2 /
          ((network.total : ℚ) / 2) := by
  rw [visit_eq_reassign]
  by_cases hlt : node < network.size
  · have htarget := targetOf_lt hundirected.bounded htracks resolution network.total hlt
    rw [modularity_reassign resolution hundirected htracks hlt htarget,
      gainIn_targetOf resolution hundirected htracks hlt]
  · have hle := Nat.le_of_not_lt hlt
    rw [reassign_targetOf_of_size_le hle, moveOf_of_size_le hle]
    simp

end Best

end CodeGraph
