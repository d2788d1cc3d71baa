import CodeGraph.Proofs.Community.Connected
import CodeGraph.Proofs.Community.Cores
import Mathlib.Algebra.Group.Action.Defs
import Mathlib.Algebra.Order.BigOperators.Group.Finset
import Mathlib.Algebra.Order.Field.Basic

namespace CodeGraph

/-! Two cliques of the same size with one link between them.  In exact arithmetic and with
resolution one, two rounds of visits gather each clique, in whatever order the nodes are visited. -/

theorem sumOf_map_eq_sum {items : List Nat} (hnodup : items.Nodup) (count : Nat → Nat) :
    sumOf (items.map count) = ∑ item ∈ items.toFinset, count item :=
  (List.sum_toFinset count hnodup).symm

namespace Network

/-- All nodes of the side are linked by unit weights, and one of them, the port, to one node
elsewhere. -/
structure IsClique (network : Network) (side : Finset Nat) (port far : Nat) : Prop where
  lt_size : ∀ node ∈ side, node < network.size
  port_mem : port ∈ side
  far_notMem : far ∉ side
  three_le : 3 ≤ side.card
  nodup : ∀ node, ((network.neighbours node).map Prod.fst).Nodup
  mem_neighbours : ∀ node ∈ side, ∀ other weight, (other, weight) ∈ network.neighbours node ↔
    weight = 1 ∧ (other ∈ side ∧ other ≠ node ∨ node = port ∧ other = far)

structure TwoCliques (network : Network) (left right : Finset Nat) (a b : Nat) : Prop where
  undirected : network.Undirected
  first : network.IsClique left a b
  second : network.IsClique right b a
  card_eq : left.card = right.card
  disjoint : Disjoint left right
  covers : left ∪ right = Finset.range network.size

theorem TwoCliques.symm {network : Network} {left right : Finset Nat} {a b : Nat}
    (hcliques : network.TwoCliques left right a b) : network.TwoCliques right left b a where
  undirected := hcliques.undirected
  first := hcliques.second
  second := hcliques.first
  card_eq := hcliques.card_eq.symm
  disjoint := hcliques.disjoint.symm
  covers := by rw [Finset.union_comm, hcliques.covers]

/-! Weights in a clique -/

namespace IsClique

variable {network : Network} {side : Finset Nat} {port far : Nat}
variable (hclique : network.IsClique side port far) {node : Nat} (hnode : node ∈ side)

include hclique hnode

theorem between_eq (other : Nat) :
    network.between node other =
      if other ∈ side ∧ other ≠ node ∨ node = port ∧ other = far then 1 else 0 := by
  split
  · next hlinked =>
      exact weightTo_of_nodup (hclique.nodup node)
        ((hclique.mem_neighbours node hnode other 1).mpr ⟨rfl, hlinked⟩)
  · next hapart =>
      refine weightTo_eq_zero fun entry hentry hkey => hapart ?_
      exact hkey ▸ ((hclique.mem_neighbours node hnode entry.1 entry.2).mp hentry).2

theorem degree_eq : network.degree node = side.card - 1 + if node = port then 1 else 0 := by
  have hunit : ∀ entry ∈ network.neighbours node, entry.2 = 1 :=
    fun entry hentry => ((hclique.mem_neighbours node hnode entry.1 entry.2).mp hentry).1
  have hkeys : ((network.neighbours node).map Prod.fst).toFinset =
      if node = port then insert far (side.erase node) else side.erase node := by
    ext other
    have hlisted : other ∈ (network.neighbours node).map Prod.fst ↔
        other ∈ side ∧ other ≠ node ∨ node = port ∧ other = far := by
      constructor
      · intro hmem
        obtain ⟨entry, hentry, rfl⟩ := List.mem_map.mp hmem
        exact ((hclique.mem_neighbours node hnode entry.1 entry.2).mp hentry).2
      · intro hlinked
        exact List.mem_map_of_mem ((hclique.mem_neighbours node hnode other 1).mpr ⟨rfl, hlinked⟩)
    rw [List.mem_toFinset, hlisted]
    split <;> simp_all [or_comm, and_comm]
  rw [degree, List.map_congr_left hunit, sumOf_map_one, ← List.length_map (f := Prod.fst),
    ← List.toFinset_card_of_nodup (hclique.nodup node), hkeys]
  have hcard := Finset.card_erase_of_mem hnode
  split
  · have hout : far ∉ side.erase node := fun hin => hclique.far_notMem (Finset.mem_of_mem_erase hin)
    rw [Finset.card_insert_of_notMem hout, hcard]
  · exact hcard

theorem linkTo_eq {group : List Nat} (hnodup : (node :: group).Nodup)
    (hsubset : group.toFinset ⊆ side) : network.linkTo node group = group.toFinset.card := by
  rw [List.nodup_cons] at hnodup
  have hunit : ∀ other ∈ group, network.between node other = 1 := by
    intro other hother
    rw [hclique.between_eq hnode, if_pos]
    exact .inl ⟨hsubset (List.mem_toFinset.mpr hother), fun heq => hnodup.1 (heq ▸ hother)⟩
  rw [linkTo_eq_sumOf network node hnodup.2, List.map_congr_left hunit, sumOf_map_one,
    List.toFinset_card_of_nodup hnodup.2]

theorem linkTo_le_one {group : List Nat} (hnodup : group.Nodup)
    (hdisjoint : Disjoint side group.toFinset) : network.linkTo node group ≤ 1 := by
  have hfar : ∀ other ∈ group.toFinset,
      network.between node other ≤ if other = far then 1 else 0 := by
    intro other hother
    have hout : other ∉ side := Finset.disjoint_right.mp hdisjoint hother
    rw [hclique.between_eq hnode]
    split
    · next hlinked => simp [(hlinked.resolve_left fun hin => hout hin.1).2]
    · exact Nat.zero_le _
  rw [linkTo_eq_sumOf network node hnodup, sumOf_map_eq_sum hnodup]
  refine (Finset.sum_le_sum hfar).trans ?_
  rw [Finset.sum_ite_eq']
  split <;> simp

omit hnode in
theorem ripe : Ripe port side 2 :=
  ⟨(Nat.le_succ 2).trans hclique.three_le, fun _ => hclique.three_le⟩

omit hnode in
theorem groupDegree_eq {group : List Nat} (hnodup : group.Nodup)
    (hsubset : group.toFinset ⊆ side) :
    network.groupDegree group =
      group.toFinset.card * (side.card - 1) + if port ∈ group.toFinset then 1 else 0 := by
  rw [groupDegree, sumOf_map_eq_sum hnodup,
    Finset.sum_congr rfl fun other hother => hclique.degree_eq (hsubset hother),
    Finset.sum_add_distrib, Finset.sum_const, smul_eq_mul, Finset.sum_ite_eq']

end IsClique

/-- What a node has to expect of each unit of weight, from any other node. -/
def dilution (network : Network) (node : Nat) : ℚ :=
  network.degree node / network.total

/-! Both cliques -/

namespace TwoCliques

variable {network : Network} {left right : Finset Nat} {a b : Nat}
variable (hcliques : network.TwoCliques left right a b)

include hcliques

theorem total_eq : network.total = 2 * (left.card * (left.card - 1) + 1) := by
  have hside : ∀ {side : Finset Nat} {port far : Nat}, network.IsClique side port far →
      ∑ node ∈ side, network.degree node = side.card * (side.card - 1) + 1 := by
    intro side port far hclique
    rw [Finset.sum_congr rfl fun node hnode => hclique.degree_eq hnode, Finset.sum_add_distrib,
      Finset.sum_const, smul_eq_mul, Finset.sum_ite_eq', if_pos hclique.port_mem]
  have hnodes : (List.range network.size).toFinset = left ∪ right := by
    rw [hcliques.covers]
    ext node
    simp
  rw [total, sumOf_map_eq_sum List.nodup_range, hnodes,
    Finset.sum_union hcliques.disjoint, hside hcliques.first, hside hcliques.second,
    ← hcliques.card_eq]
  omega

theorem mem_or_mem {node : Nat} (hlt : node < network.size) : node ∈ left ∨ node ∈ right := by
  rw [← Finset.mem_union, hcliques.covers]
  exact Finset.mem_range.mpr hlt

theorem dilution_pos {node : Nat} (hnode : node ∈ left) : 0 < network.dilution node := by
  have hthree := hcliques.first.three_le
  have hdegree : 0 < network.degree node := by
    rw [hcliques.first.degree_eq hnode]
    omega
  have htotal : 0 < network.total := by
    rw [hcliques.total_eq]
    omega
  exact div_pos (Nat.cast_pos.mpr hdegree) (Nat.cast_pos.mpr htotal)

theorem card_mul_dilution_lt {node : Nat} (hnode : node ∈ left) :
    left.card * network.dilution node < 1 := by
  have hthree := hcliques.first.three_le
  have hdegree : network.degree node ≤ left.card := by
    rw [hcliques.first.degree_eq hnode]
    split <;> omega
  have htotal : left.card * network.degree node < network.total := by
    obtain ⟨size, hsize⟩ : ∃ size, left.card = size + 3 := ⟨left.card - 3, by omega⟩
    rw [hcliques.total_eq]
    rw [hsize] at hdegree ⊢
    calc (size + 3) * network.degree node ≤ (size + 3) * (size + 3) :=
          Nat.mul_le_mul_left _ hdegree
      _ < 2 * ((size + 3) * (size + 3 - 1) + 1) := by
          rw [show size + 3 - 1 = size + 2 from rfl]
          nlinarith
  have hpositive : (0 : ℚ) < network.total := by
    exact_mod_cast Nat.zero_lt_of_lt htotal
  rw [dilution, ← mul_div_assoc, div_lt_one hpositive]
  exact_mod_cast htotal

end TwoCliques

end Network

/-! Choices in a clique -/

section Choices

variable {network : Network} {left right : Finset Nat} {a b : Nat}
variable (hcliques : network.TwoCliques left right a b) {assignment : Assignment}
variable (htracks : Tracks network assignment) {core : Finset Nat}
variable (hgathers : assignment.Gathers left core) {node : Nat} (hnode : node ∈ left)

include hcliques hgathers hnode

/-- Nodes of its own clique are worth a share each, and the port a little less. -/
theorem worthIn_eq_prospect {other : Nat} (hother : other ∈ left) :
    worthIn network 1 network.total assignment node (assignment.communityOf other) =
      prospect (1 - (left.card - 1) * network.dilution node) (network.dilution node) a
        ((cell core other).erase node) := by
  have hclique := hcliques.first
  have hnodup := assignment.nodup_cons_others node (assignment.communityOf other)
  have hsubset := hgathers.others_subset node hother
  have hone : 1 ≤ left.card := by
    have hthree := hclique.three_le
    omega
  rw [worthIn, worth, hclique.linkTo_eq hnode hnodup hsubset,
    hclique.groupDegree_eq hnodup.of_cons hsubset, hgathers.toFinset_others node hother, prospect,
    Network.dilution]
  push_cast [Nat.cast_sub hone]
  split <;> ring

omit hgathers in
/-- The other clique is worth little to the port. -/
theorem worthIn_far_le {outer : Finset Nat} (houter : assignment.Gathers right outer) :
    worthIn network 1 network.total assignment node (assignment.communityOf b) ≤
      1 - left.card * network.dilution node := by
  have hfar := hcliques.second.port_mem
  have hnodup := (assignment.nodup_cons_others node (assignment.communityOf b)).of_cons
  have hsubset := houter.others_subset node hfar
  have hlink : network.linkTo node (assignment.others node (assignment.communityOf b)) ≤ 1 :=
    hcliques.first.linkTo_le_one hnode hnodup (hcliques.disjoint.mono_right hsubset)
  have hdegree : left.card ≤
      network.groupDegree (assignment.others node (assignment.communityOf b)) := by
    have hmem : b ∈ (assignment.others node (assignment.communityOf b)).toFinset := by
      rw [houter.toFinset_others node hfar, Finset.mem_erase]
      exact ⟨fun heq => hcliques.first.far_notMem (heq ▸ hnode), mem_cell_self outer b⟩
    have hthree := hcliques.second.three_le
    rw [Network.groupDegree, sumOf_map_eq_sum hnodup, hcliques.card_eq]
    refine le_trans ?_ (Finset.single_le_sum (fun _ _ => Nat.zero_le _) hmem)
    rw [hcliques.second.degree_eq hfar, if_pos rfl]
    omega
  have hlinkCast : (network.linkTo node
      (assignment.others node (assignment.communityOf b)) : ℚ) ≤ 1 := by exact_mod_cast hlink
  have hexpected : left.card * network.dilution node ≤
      network.groupDegree (assignment.others node (assignment.communityOf b)) *
        network.dilution node :=
    mul_le_mul_of_nonneg_right (by exact_mod_cast hdegree) (hcliques.dilution_pos hnode).le
  rw [worthIn, worth, one_mul, mul_div_assoc, ← Network.dilution]
  linarith

theorem lt_worthIn_port (hport : node = a) {other : Nat} (hother : other ∈ left)
    (hne : other ≠ node) :
    1 - left.card * network.dilution node <
      worthIn network 1 network.total assignment node (assignment.communityOf other) := by
  have hdilution := hcliques.dilution_pos hnode
  have hsmall := hcliques.card_mul_dilution_lt hnode
  have hsome : (1 : ℚ) ≤ ((cell core other).erase node).card := by
    have hmem : other ∈ (cell core other).erase node :=
      Finset.mem_erase.mpr ⟨hne, mem_cell_self core other⟩
    exact_mod_cast Finset.card_pos.mpr ⟨other, hmem⟩
  have hshare : (0 : ℚ) ≤ 1 - (left.card - 1) * network.dilution node := by linarith
  have hmany := le_mul_of_one_le_left hshare hsome
  rw [worthIn_eq_prospect hcliques hgathers hnode hother, prospect, ← hport,
    if_neg (Finset.notMem_erase _ _), sub_zero]
  linarith

include htracks

/-- A visit leaves a node in its own clique, where it is worth the most. -/
theorem exists_isChoice {outer : Finset Nat} (houter : assignment.Gathers right outer) :
    ∃ choice, targetOf network (1 : ℚ) network.total assignment node =
        assignment.communityOf choice ∧
      IsChoice (1 - (left.card - 1) * network.dilution node) (network.dilution node) a left core
        node choice := by
  have hlt := hcliques.first.lt_size node hnode
  have hbest : ∀ other ∈ left, other ≠ node →
      worthIn network (1 : ℚ) network.total assignment node (assignment.communityOf other) ≤
        worthIn network (1 : ℚ) network.total assignment node
          (targetOf network (1 : ℚ) network.total assignment node) := by
    intro other hother hne
    have hlinked : (other, 1) ∈ network.neighbours node :=
      (hcliques.first.mem_neighbours node hnode other 1).mpr ⟨rfl, .inl ⟨hother, hne⟩⟩
    have hle := worthIn_le_targetOf 1 hcliques.undirected htracks hlt hlinked hne
    exact hle
  -- the way over the bridge is worth less than any node of the clique
  have hinside : ∃ choice ∈ left, targetOf network (1 : ℚ) network.total assignment node =
      assignment.communityOf choice := by
    rcases targetOf_cases network (1 : ℚ) network.total assignment node with
      hstay | ⟨entry, hentry, hmove⟩
    · exact ⟨node, hnode, hstay⟩
    · rcases ((hcliques.first.mem_neighbours node hnode entry.1 entry.2).mp hentry).2 with
        hown | ⟨hport, hfar⟩
      · exact ⟨entry.1, hown.1, hmove.symm⟩
      · have hthree := hcliques.first.three_le
        obtain ⟨other, hother, hne⟩ := Finset.exists_mem_ne (by omega : 1 < left.card) node
        have hle := hbest other hother hne
        rw [← hmove, hfar] at hle
        exact absurd (hle.trans (worthIn_far_le hcliques hnode houter))
          (not_le.mpr (lt_worthIn_port hcliques hgathers hnode hport hother hne))
  obtain ⟨choice, hchoice, htarget⟩ := hinside
  refine ⟨choice, htarget, hchoice, ?_, ?_⟩
  · intro other hother hne
    have hle := hbest other hother hne
    rwa [htarget, worthIn_eq_prospect hcliques hgathers hnode hother,
      worthIn_eq_prospect hcliques hgathers hnode hchoice] at hle
  · intro hout
    have hmoves : targetOf network (1 : ℚ) network.total assignment node ≠
        assignment.communityOf node := by
      rw [htarget]
      intro hsame
      have hin : choice ∈ cell core node := by
        rw [cell]
        have htogether := (hgathers.together_iff node hnode choice
          (hgathers.lt_size choice hchoice)).mp hsame.symm
        grind
      exact hout hin
    have hless := worthIn_lt_targetOf 1 hcliques.undirected htracks hlt hmoves
    rwa [htarget, worthIn_eq_prospect hcliques hgathers hnode hnode,
      worthIn_eq_prospect hcliques hgathers hnode hchoice] at hless

end Choices

/-! Rounds -/

/-- Two cores, one in each clique, and everything else alone. -/
structure Parted (network : Network) (left right : Finset Nat) (a b : Nat)
    (inner outer : Finset Nat) (assignment : Assignment) : Prop where
  tracks : Tracks network assignment
  left : assignment.Gathers left inner
  ripe_left : Ripe a inner 0
  right : assignment.Gathers right outer
  ripe_right : Ripe b outer 0

namespace Parted

variable {network : Network} {left right inner outer : Finset Nat} {a b : Nat}
variable {assignment : Assignment} (hcliques : network.TwoCliques left right a b)
variable (hparted : Parted network left right a b inner outer assignment)

include hparted

theorem symm : Parted network right left b a outer inner assignment where
  tracks := hparted.tracks
  left := hparted.right
  ripe_left := hparted.ripe_right
  right := hparted.left
  ripe_right := hparted.ripe_left

include hcliques

theorem visit_left {node : Nat} (hnode : node ∈ left) (moved : Bool) :
    ∃ next, Parted network left right a b next outer
        (visit network (1 : ℚ) network.total (assignment, moved) node).1 ∧
      Advances left a [node] inner next := by
  have hpenalty := hcliques.dilution_pos hnode
  have hshare : network.dilution node < 1 - (left.card - 1) * network.dilution node := by
    linarith [hcliques.card_mul_dilution_lt hnode]
  obtain ⟨choice, htarget, hchoice⟩ :=
    exists_isChoice hcliques hparted.tracks hparted.left hnode hparted.right
  obtain ⟨hrest, hadvances⟩ := hchoice.advances hpenalty hshare hparted.left.subset hnode
    hcliques.first.three_le hparted.ripe_left
  have houtside : ∀ {next}, next ∈ left → next ∉ right :=
    fun hnext => Finset.disjoint_left.mp hcliques.disjoint hnext
  have htracks := hparted.tracks.visit hcliques.undirected.bounded (1 : ℚ) network.total moved node
  refine ⟨_, ⟨htracks, ?_, (hadvances.ripens 0 hparted.ripe_left).of_le (Nat.zero_le _), ?_,
    hparted.ripe_right⟩, hadvances⟩
  · rw [visit_eq_reassign, htarget]
    exact hparted.left.reassign hnode hchoice.mem hrest
  · rw [visit_eq_reassign, htarget]
    exact hparted.right.reassign_outside (hparted.left.lt_size node hnode) (houtside hnode)
      (hparted.left.lt_size choice hchoice.mem) (houtside hchoice.mem)

theorem visit {node : Nat} (hlt : node < network.size) (moved : Bool) :
    ∃ next after, Parted network left right a b next after
        (CodeGraph.visit network (1 : ℚ) network.total (assignment, moved) node).1 ∧
      Advances left a [node] inner next ∧ Advances right b [node] outer after := by
  rcases hcliques.mem_or_mem hlt with hnode | hnode
  · obtain ⟨next, hnext, hadvances⟩ := hparted.visit_left hcliques hnode moved
    exact ⟨next, outer, hnext, hadvances,
      .of_not_mem (Finset.disjoint_left.mp hcliques.disjoint hnode)⟩
  · obtain ⟨after, hafter, hadvances⟩ := hparted.symm.visit_left hcliques.symm hnode moved
    exact ⟨inner, after, hafter.symm,
      .of_not_mem (Finset.disjoint_right.mp hcliques.disjoint hnode), hadvances⟩

theorem foldl_visit {order : List Nat} (horder : ∀ node ∈ order, node < network.size)
    (moved : Bool) :
    ∃ next after, Parted network left right a b next after
        (order.foldl (CodeGraph.visit network (1 : ℚ) network.total) (assignment, moved)).1 ∧
      Advances left a order inner next ∧ Advances right b order outer after := by
  induction order generalizing assignment inner outer moved with
  | nil => exact ⟨inner, outer, hparted, .refl, .refl⟩
  | cons node rest ih =>
      obtain ⟨next, after, hnext, hinner, houter⟩ :=
        hparted.visit hcliques (horder node List.mem_cons_self) moved
      obtain ⟨last, final, hlast, hinner', houter'⟩ :=
        ih hnext (fun other hother => horder other (List.mem_cons_of_mem _ hother)) _
      exact ⟨last, final, hlast, hinner.cons hinner', houter.cons houter'⟩

end Parted

/-! A round visits every node once. -/

section Rounds

variable {network : Network} {side core next : Finset Nat} {port far : Nat}
variable (hclique : network.IsClique side port far) {order : List Nat}
variable (horder : order.Perm (List.range network.size))
variable (hadvances : Advances side port order core next)

include hclique horder hadvances

/-- After a round no core falls apart any more. -/
theorem Advances.ripe_of_round (hripe : Ripe port core 0) : Ripe port next 2 := by
  have hthree := hclique.three_le
  have hcount : order.countP (fun node => decide (node ∈ side ∧ node ≠ port)) = side.card - 1 := by
    have hnodes : (order.filter fun node => decide (node ∈ side ∧ node ≠ port)).toFinset =
        side.erase port := by
      ext node
      have hlt := hclique.lt_size node
      simp only [List.mem_toFinset, List.mem_filter, horder.mem_iff, List.mem_range,
        decide_eq_true_eq, Finset.mem_erase]
      grind
    have hnodup : (order.filter fun node => decide (node ∈ side ∧ node ≠ port)).Nodup :=
      (horder.nodup_iff.mpr List.nodup_range).filter _
    rw [List.countP_eq_length_filter, ← List.toFinset_card_of_nodup hnodup, hnodes,
      Finset.card_erase_of_mem hclique.port_mem]
  refine (hadvances.ripens 0 hripe).of_le ?_
  omega

/-- A ripe core takes in the whole clique in one more round. -/
theorem Advances.eq_of_round (hsubset : core ⊆ side) (hripe : Ripe port core 2) : next = side := by
  have hnodes : order.toFinset ∩ side = side := by
    refine Finset.inter_eq_right.mpr fun node hnode => ?_
    rw [List.mem_toFinset, horder.mem_iff, List.mem_range]
    exact hclique.lt_size node hnode
  rw [hadvances.collects hripe, hnodes]
  exact Finset.union_eq_right.mpr hsubset

end Rounds

/-! The first level -/

section Settle

variable {α : Type} [Sub α] [Mul α] [Div α] [NatCast α] [LT α] [DecidableLT α] [BEq α]
variable {network : Network} {resolution : α} {total : Nat} {order : List Nat}

theorem snd_settleUpTo_of_moved (rounds : Nat) (assignment : Assignment) :
    (settleUpTo network resolution total order rounds (assignment, true)).2 = true := by
  induction rounds generalizing assignment with
  | zero => rfl
  | succ rounds ih =>
      rw [settleUpTo]
      split
      · exact ih _
      · rfl

/-- A round in which no node moves changes no community. -/
theorem community_foldl_visit {assignment : Assignment} {moved : Bool}
    (hstill : (order.foldl (visit network resolution total) (assignment, moved)).2 = false) :
    (order.foldl (visit network resolution total) (assignment, moved)).1.community =
      assignment.community ∧ moved = false := by
  induction order generalizing assignment moved with
  | nil => exact ⟨rfl, hstill⟩
  | cons node rest ih =>
      rw [List.foldl_cons, visit_eq_reassign] at hstill ⊢
      obtain ⟨hrest, hfirst⟩ := ih hstill
      rw [Bool.or_eq_false_iff, bne_eq_false_iff_eq] at hfirst
      refine ⟨hrest.trans ?_, hfirst.1⟩
      rw [hfirst.2]
      exact Assignment.community_reassign_own network assignment node

end Settle

namespace Parted

variable {network : Network} {left right : Finset Nat} {a b : Nat}

theorem singletons (hcliques : network.TwoCliques left right a b) :
    Parted network left right a b ∅ ∅ (.singletons network) where
  tracks := .singletons network
  left := Assignment.gathers_singletons hcliques.first.lt_size
  ripe_left := .inl rfl
  right := Assignment.gathers_singletons hcliques.second.lt_size
  ripe_right := .inl rfl

variable (hcliques : network.TwoCliques left right a b) {order : List Nat}
variable (horder : order.Perm (List.range network.size))

include hcliques horder

/-- In one round ripe cores become the whole cliques. -/
theorem round {inner outer : Finset Nat} {assignment : Assignment}
    (hparted : Parted network left right a b inner outer assignment) (hinner : Ripe a inner 2)
    (houter : Ripe b outer 2) (moved : Bool) :
    Parted network left right a b left right
      (order.foldl (CodeGraph.visit network (1 : ℚ) network.total) (assignment, moved)).1 := by
  have hnodes : ∀ node ∈ order, node < network.size :=
    fun node hnode => List.mem_range.mp (horder.mem_iff.mp hnode)
  obtain ⟨next, after, hnext, hleft, hright⟩ := hparted.foldl_visit hcliques hnodes moved
  rw [hleft.eq_of_round hcliques.first horder hparted.left.subset hinner,
    hright.eq_of_round hcliques.second horder hparted.right.subset houter] at hnext
  exact hnext

theorem settleUpTo {inner outer : Finset Nat} {assignment : Assignment}
    (hparted : Parted network left right a b inner outer assignment) (hinner : Ripe a inner 2)
    (houter : Ripe b outer 2) (rounds : Nat) (moved : Bool) :
    Parted network left right a b left right
      (CodeGraph.settleUpTo network (1 : ℚ) network.total order (rounds + 1)
        (assignment, moved)).1 := by
  induction rounds generalizing inner outer assignment moved with
  | zero =>
      have hround := hparted.round hcliques horder hinner houter false
      rw [CodeGraph.settleUpTo]
      split
      · next next hmoved => rwa [hmoved] at hround
      · next last hstill => rwa [hstill] at hround
  | succ rounds ih =>
      have hround := hparted.round hcliques horder hinner houter false
      rw [CodeGraph.settleUpTo]
      split
      · next next hmoved =>
          rw [hmoved] at hround
          exact ih hround hcliques.first.ripe hcliques.second.ripe true
      · next last hstill => rwa [hstill] at hround

end Parted

/-- On the first level each clique becomes a community. -/
theorem Network.TwoCliques.settle_eq {network : Network} {left right : Finset Nat} {a b : Nat}
    (hcliques : network.TwoCliques left right a b) {order : List Nat}
    (horder : order.Perm (List.range network.size)) :
    ∃ assignment, settle network (1 : ℚ) network.total order = (assignment, true) ∧
      Parted network left right a b left right assignment := by
  have hnodes : ∀ node ∈ order, node < network.size :=
    fun node hnode => List.mem_range.mp (horder.mem_iff.mp hnode)
  obtain ⟨next, after, hfirst, hleft, hright⟩ :=
    (Parted.singletons hcliques).foldl_visit hcliques hnodes false
  have hinner := hleft.ripe_of_round hcliques.first horder (.inl rfl)
  have houter := hright.ripe_of_round hcliques.second horder (.inl rfl)
  cases hround : order.foldl (visit network (1 : ℚ) network.total)
      (.singletons network, false) with
  | mk assignment moved =>
      rw [hround] at hfirst
      cases moved with
      | false =>
          -- two nodes are together now that were not at first
          have hsame := (community_foldl_visit (congrArg Prod.snd hround)).1
          rw [hround] at hsame
          obtain ⟨one, hone, other, hother, hne⟩ := Finset.one_lt_card.mp hinner.1
          have honeLeft := hfirst.left.subset hone
          have hotherLeft := hfirst.left.subset hother
          have htogether := (hfirst.left.together_iff one honeLeft other
            (hfirst.left.lt_size other hotherLeft)).mpr (.inr ⟨hone, hother⟩)
          rw [Assignment.communityOf, Assignment.communityOf, hsame, ← Assignment.communityOf,
            ← Assignment.communityOf,
            Assignment.communityOf_singletons (hcliques.first.lt_size one honeLeft),
            Assignment.communityOf_singletons (hcliques.first.lt_size other hotherLeft)]
            at htogether
          exact absurd htogether hne
      | true =>
          have hstart : settle network (1 : ℚ) network.total order =
              settleUpTo network (1 : ℚ) network.total order 99 (assignment, true) := by
            rw [settle, show roundLimit = 99 + 1 from rfl, settleUpTo, hround]
          rw [hstart]
          exact ⟨_, Prod.ext rfl (snd_settleUpTo_of_moved 99 assignment),
            hfirst.settleUpTo hcliques horder hinner houter 98 true⟩

end CodeGraph
