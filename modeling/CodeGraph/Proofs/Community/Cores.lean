import CodeGraph.Proofs.Community.Gain
import Mathlib.Data.Finset.Card
import Mathlib.Tactic.Linarith

namespace CodeGraph

/-! Communities that grow around a core.  Among nodes that are all linked to each other, some are
together and the others still alone, and a node that is visited prefers many to few.  One of the
nodes, the port, has a link to the outside and is a little less attractive than the others. -/

/-- The nodes that are together with a node. -/
def cell (core : Finset Nat) (node : Nat) : Finset Nat :=
  if node ∈ core then core else {node}

theorem cell_of_mem {core : Finset Nat} {node : Nat} (hmem : node ∈ core) : cell core node = core :=
  if_pos hmem

theorem cell_of_not_mem {core : Finset Nat} {node : Nat} (hmem : node ∉ core) :
    cell core node = {node} :=
  if_neg hmem

theorem mem_cell_self (core : Finset Nat) (node : Nat) : node ∈ cell core node := by
  rw [cell]
  split
  · assumption
  · exact Finset.mem_singleton_self node

/-! Cores that do not fall apart any more -/

/-- How far a core has come.  Two nodes one of which is the port may still part. -/
def Ripe (port : Nat) (core : Finset Nat) : Nat → Prop
  | 0 => core = ∅ ∨ 2 ≤ core.card
  | 1 => 2 ≤ core.card
  | _ + 2 => 2 ≤ core.card ∧ (port ∈ core → 3 ≤ core.card)

namespace Ripe

variable {port : Nat} {core : Finset Nat}

theorem of_two (hripe : Ripe port core 2) : ∀ degree, Ripe port core degree
  | 0 => .inr hripe.1
  | 1 => hripe.1
  | _ + 2 => hripe

theorem of_le {degree lower : Nat} (hripe : Ripe port core degree) (hle : lower ≤ degree) :
    Ripe port core lower := by
  match degree with
  | 0 =>
      obtain rfl : lower = 0 := by omega
      exact hripe
  | 1 =>
      obtain rfl | rfl : lower = 0 ∨ lower = 1 := by omega
      · exact .inr hripe
      · exact hripe
  | degree + 2 => exact of_two hripe lower

theorem insert (hripe : Ripe port core 2) (node : Nat) : Ripe port (insert node core) 2 := by
  have hcard := Finset.card_le_card (Finset.subset_insert node core)
  refine ⟨hripe.1.trans hcard, fun hport => ?_⟩
  rcases Finset.mem_insert.mp hport with rfl | hin
  · by_cases hold : port ∈ core
    · exact (hripe.2 hold).trans hcard
    · rw [Finset.card_insert_of_notMem hold]
      exact Nat.succ_le_succ hripe.1
  · exact (hripe.2 hin).trans hcard

end Ripe

/-! What visits do to a core -/

/-- Each visit to a node other than the port brings the core forward.  Then it only grows. -/
structure Advances (side : Finset Nat) (port : Nat) (order : List Nat) (core next : Finset Nat) :
    Prop where
  ripens : ∀ degree, Ripe port core degree →
    Ripe port next (degree + order.countP fun node => decide (node ∈ side ∧ node ≠ port))
  collects : Ripe port core 2 → next = core ∪ order.toFinset ∩ side

namespace Advances

variable {side core next last : Finset Nat} {port : Nat}

theorem refl : Advances side port [] core core where
  ripens := fun _ hripe => hripe
  collects := fun _ => by simp

theorem cons {node : Nat} {rest : List Nat} (hfirst : Advances side port [node] core next)
    (hrest : Advances side port rest next last) : Advances side port (node :: rest) core last where
  ripens := by
    intro degree hripe
    have hlast := hrest.ripens _ (hfirst.ripens degree hripe)
    rwa [Nat.add_assoc, ← List.countP_append] at hlast
  collects := by
    intro hripe
    have hnext := (hfirst.ripens 2 hripe).of_le (Nat.le_add_right 2 _)
    rw [hrest.collects hnext, hfirst.collects hripe, Finset.union_assoc,
      ← Finset.union_inter_distrib_right, ← List.toFinset_append, List.singleton_append]

theorem of_not_mem {node : Nat} (hnode : node ∉ side) : Advances side port [node] core core where
  ripens := by
    intro degree hripe
    simpa [hnode] using hripe
  collects := by
    intro _
    simp [hnode]

end Advances

/-! Choices -/

/-- What a group is worth to a node: a share for each of its nodes, less a penalty for the port. -/
def prospect (share penalty : ℚ) (port : Nat) (group : Finset Nat) : ℚ :=
  group.card * share - if port ∈ group then penalty else 0

/-- The node chooses the cell of the other one: no cell is worth more, and its own is left only for
one that is worth more. -/
structure IsChoice (share penalty : ℚ) (port : Nat) (side core : Finset Nat) (node choice : Nat) :
    Prop where
  mem : choice ∈ side
  le : ∀ other ∈ side, other ≠ node →
    prospect share penalty port ((cell core other).erase node) ≤
      prospect share penalty port ((cell core choice).erase node)
  lt : choice ∉ cell core node →
    prospect share penalty port ((cell core node).erase node) <
      prospect share penalty port ((cell core choice).erase node)

section Prospect

variable {share penalty : ℚ} (hpenalty : 0 < penalty) (hshare : penalty < share) {port : Nat}

include hpenalty

theorem prospect_le (group : Finset Nat) :
    prospect share penalty port group ≤ group.card * share := by
  rw [prospect]
  split <;> linarith

theorem le_prospect (group : Finset Nat) :
    group.card * share - penalty ≤ prospect share penalty port group := by
  rw [prospect]
  split <;> linarith

include hshare

theorem lt_prospect {group : Finset Nat} (hcard : 2 ≤ group.card) :
    share < prospect share penalty port group := by
  have htwo : (2 : ℚ) ≤ group.card := by exact_mod_cast hcard
  have hmany : 2 * share ≤ group.card * share :=
    mul_le_mul_of_nonneg_right htwo (hpenalty.trans hshare).le
  have hleast : group.card * share - penalty ≤ prospect share penalty port group :=
    le_prospect hpenalty group
  linarith

omit hpenalty hshare in
theorem prospect_empty : prospect share penalty port ∅ = 0 := by
  simp [prospect]

theorem prospect_singleton_pos {node : Nat} : 0 < prospect share penalty port {node} := by
  rw [prospect, Finset.card_singleton, Nat.cast_one, one_mul]
  split <;> linarith

omit hpenalty hshare in
theorem prospect_singleton {node : Nat} (hne : node ≠ port) :
    prospect share penalty port {node} = share := by
  simp [prospect, hne.symm]

theorem prospect_le_share {node other : Nat} :
    prospect share penalty port (({node} : Finset Nat).erase other) ≤ share := by
  have hpositive := hpenalty.trans hshare
  have hcard : ((({node} : Finset Nat).erase other).card : ℚ) ≤ 1 := by
    exact_mod_cast (Finset.card_erase_le).trans (Finset.card_singleton node).le
  calc prospect share penalty port (({node} : Finset Nat).erase other)
      ≤ (({node} : Finset Nat).erase other).card * share := prospect_le hpenalty _
    _ ≤ 1 * share := mul_le_mul_of_nonneg_right hcard hpositive.le
    _ = share := one_mul share

end Prospect

section Choice

variable {share penalty : ℚ} (hpenalty : 0 < penalty) (hshare : penalty < share) {port : Nat}
variable {side core : Finset Nat} {node choice : Nat}
variable (hchoice : IsChoice share penalty port side core node choice)

include hpenalty hshare hchoice

theorem IsChoice.mem_core_of_not_mem (hcard : 2 ≤ core.card) (hnode : node ∉ core)
    (hsubset : core ⊆ side) : choice ∈ core := by
  by_contra hout
  obtain ⟨member, hmember⟩ := Finset.card_pos.mp (by omega : 0 < core.card)
  have hne : member ≠ node := fun heq => hnode (heq ▸ hmember)
  have hle := hchoice.le member (hsubset hmember) hne
  rw [cell_of_mem hmember, Finset.erase_eq_of_notMem hnode, cell_of_not_mem hout] at hle
  exact absurd (hle.trans (prospect_le_share hpenalty hshare))
    (not_le.mpr (lt_prospect hpenalty hshare hcard))

/-- A node does not leave a core in which it is worth a share. -/
theorem IsChoice.mem_core_of_mem (hnode : node ∈ core)
    (hworth : share ≤ prospect share penalty port (core.erase node)) : choice ∈ core := by
  by_contra hout
  have hlt := hchoice.lt (by rwa [cell_of_mem hnode])
  rw [cell_of_mem hnode, cell_of_not_mem hout] at hlt
  exact absurd (hlt.trans_le (prospect_le_share hpenalty hshare)) (not_lt.mpr hworth)

theorem IsChoice.mem_core_of_ripe (hripe : Ripe port core 2) (hsubset : core ⊆ side) :
    choice ∈ core := by
  by_cases hnode : node ∈ core
  · refine hchoice.mem_core_of_mem hpenalty hshare hnode ?_
    have htwo : 2 ≤ core.card := hripe.1
    have hcard := Finset.card_erase_of_mem hnode
    by_cases hport : port ∈ core
    · have hthree := hripe.2 hport
      exact (lt_prospect hpenalty hshare (by omega)).le
    · have hone : (1 : ℚ) ≤ (core.erase node).card := by
        exact_mod_cast (by omega : 1 ≤ (core.erase node).card)
      rw [prospect, if_neg fun hin => hport (Finset.mem_of_mem_erase hin), sub_zero]
      exact le_mul_of_one_le_left (hpenalty.trans hshare).le hone
  · exact hchoice.mem_core_of_not_mem hpenalty hshare hripe.1 hnode hsubset

theorem IsChoice.ne_of_empty (hempty : core = ∅) (hcard : 2 ≤ side.card) : choice ≠ node := by
  rintro rfl
  obtain ⟨other, hother, hne⟩ := Finset.exists_mem_ne (by omega : 1 < side.card) choice
  have hle := hchoice.le other hother hne
  have hsingle : ∀ node, cell core node = {node} := by
    intro node
    apply cell_of_not_mem
    rw [hempty]
    exact Finset.notMem_empty node
  rw [hsingle, hsingle, Finset.erase_eq_of_notMem (by simpa using hne.symm), Finset.erase_singleton,
    prospect_empty] at hle
  exact absurd hle (not_le.mpr (prospect_singleton_pos hpenalty hshare))

/-- A ripe core takes in the nodes that are visited. -/
theorem IsChoice.advances_of_ripe (hsubset : core ⊆ side) (hnode : node ∈ side)
    (hripe : Ripe port core 2) :
    choice ∈ core ∧ Advances side port [node] core (insert node (cell core choice)) := by
  have hmem := hchoice.mem_core_of_ripe hpenalty hshare hripe hsubset
  refine ⟨hmem, fun degree _ => ?_, fun _ => ?_⟩
  · rw [cell_of_mem hmem]
    exact (hripe.insert node).of_two _
  · rw [cell_of_mem hmem, List.toFinset_cons, List.toFinset_nil, insert_empty_eq,
      Finset.singleton_inter_of_mem hnode, Finset.union_comm, ← Finset.insert_eq]

theorem IsChoice.advances_of_empty (hempty : core = ∅) (hcard : 2 ≤ side.card) :
    Advances side port [node] core (insert node (cell core choice)) := by
  have hne := hchoice.ne_of_empty hpenalty hshare hempty hcard
  have hpair : (insert node (cell core choice)).card = 2 := by
    rw [cell_of_not_mem (hempty ▸ Finset.notMem_empty choice)]
    exact Finset.card_pair hne.symm
  refine ⟨fun degree hripe => ?_, fun hripe => ?_⟩
  · have hone : Ripe port (insert node (cell core choice)) 1 := hpair.ge
    have hdegree : degree = 0 := by
      by_contra hpositive
      have hmany : 2 ≤ core.card := hripe.of_le (Nat.pos_of_ne_zero hpositive)
      rw [hempty, Finset.card_empty] at hmany
      omega
    refine hone.of_le ?_
    rw [hdegree, Nat.zero_add]
    exact List.countP_le_length
  · have hmany : 2 ≤ core.card := hripe.1
    rw [hempty, Finset.card_empty] at hmany
    omega

omit hshare in
/-- The port and another node: the other one prefers a third node to the port. -/
theorem IsChoice.not_mem_core_of_pair (hthree : 3 ≤ side.card) (hpair : core.card = 2)
    (hport : port ∈ core) (hnode : node ∈ core) (hne : node ≠ port) : choice ∉ core := by
  intro hmem
  obtain ⟨third, hthird, hout⟩ := Finset.exists_mem_notMem_of_card_lt_card
    (by omega : core.card < side.card)
  have hother : third ≠ node := fun heq => hout (heq ▸ hnode)
  have hfar : third ≠ port := fun heq => hout (heq ▸ hport)
  have hrest : core.erase node = {port} := by
    refine (Finset.eq_of_subset_of_card_le ?_ ?_).symm
    · simpa using ⟨hne.symm, hport⟩
    · rw [Finset.card_erase_of_mem hnode, hpair, Finset.card_singleton]
  have hle := hchoice.le third hthird hother
  rw [cell_of_not_mem hout, cell_of_mem hmem, hrest,
    Finset.erase_eq_of_notMem (by simpa using hother.symm), prospect_singleton hfar] at hle
  simp only [prospect, Finset.card_singleton, Nat.cast_one, one_mul, Finset.mem_singleton,
    if_true] at hle
  linarith

theorem IsChoice.advances_of_pair (hsubset : core ⊆ side) (hthree : 3 ≤ side.card)
    (hpair : core.card = 2) (hport : port ∈ core) :
    (choice ∈ core ∨ (core.erase node).card ≤ 1) ∧
      Advances side port [node] core (insert node (cell core choice)) := by
  have hgrown : Ripe port (insert node (cell core choice)) 2 →
      Advances side port [node] core (insert node (cell core choice)) := by
    refine fun hripe => ⟨fun degree _ => hripe.of_two _, fun hold => ?_⟩
    have hmany : 3 ≤ core.card := hold.2 hport
    omega
  by_cases hnode : node ∈ core
  · by_cases hsame : node = port
    · -- the port stays
      have hleft : (core.erase node).card = 1 := by rw [Finset.card_erase_of_mem hnode, hpair]
      have hworth : share ≤ prospect share penalty port (core.erase node) := by
        rw [prospect, hleft, hsame, if_neg (Finset.notMem_erase port core)]
        simp
      have hmem := hchoice.mem_core_of_mem hpenalty hshare hnode hworth
      refine ⟨.inl hmem, ?_⟩
      rw [cell_of_mem hmem, Finset.insert_eq_of_mem hnode]
      refine ⟨fun degree hripe => by simpa [hsame] using hripe, fun hold => ?_⟩
      have hmany : 3 ≤ core.card := hold.2 hport
      omega
    · -- the other node parts from the port
      have hout := hchoice.not_mem_core_of_pair hpenalty hthree hpair hport hnode hsame
      have hne : node ≠ choice := fun heq => hout (heq ▸ hnode)
      refine ⟨.inr (by rw [Finset.card_erase_of_mem hnode, hpair]), hgrown ?_⟩
      rw [cell_of_not_mem hout]
      refine ⟨(Finset.card_pair hne).ge, fun hin => ?_⟩
      rcases Finset.mem_insert.mp hin with heq | hin
      · exact absurd heq.symm hsame
      · exact absurd (Finset.mem_singleton.mp hin ▸ hport) hout
  · have hmem := hchoice.mem_core_of_not_mem hpenalty hshare hpair.ge hnode hsubset
    refine ⟨.inl hmem, hgrown ?_⟩
    have hcard : (insert node core).card = 3 := by rw [Finset.card_insert_of_notMem hnode, hpair]
    rw [cell_of_mem hmem]
    exact ⟨by omega, fun _ => hcard.ge⟩

theorem IsChoice.advances (hsubset : core ⊆ side) (hnode : node ∈ side) (hthree : 3 ≤ side.card)
    (hripe : Ripe port core 0) :
    (choice ∈ core ∨ (core.erase node).card ≤ 1) ∧
      Advances side port [node] core (insert node (cell core choice)) := by
  rcases hripe with hempty | hmany
  · refine ⟨.inr ?_, hchoice.advances_of_empty hpenalty hshare hempty (by omega)⟩
    simp [hempty]
  · by_cases hgood : port ∈ core → 3 ≤ core.card
    · exact (hchoice.advances_of_ripe hpenalty hshare hsubset hnode ⟨hmany, hgood⟩).imp_left .inl
    · push Not at hgood
      exact hchoice.advances_of_pair hpenalty hshare hsubset hthree (by omega) hgood.1

end Choice

/-! Cores in an assignment -/

/-- The nodes of the core are together, and the others of the side are alone. -/
structure Assignment.Gathers (assignment : Assignment) (side core : Finset Nat) : Prop where
  subset : core ⊆ side
  lt_size : ∀ node ∈ side, node < assignment.community.size
  together_iff : ∀ one ∈ side, ∀ other < assignment.community.size,
    assignment.communityOf one = assignment.communityOf other ↔
      one = other ∨ one ∈ core ∧ other ∈ core

namespace Assignment.Gathers

variable {network : Network} {assignment : Assignment} {side core : Finset Nat}
variable (hgathers : assignment.Gathers side core)

include hgathers

theorem cell_subset {node : Nat} (hnode : node ∈ side) : cell core node ⊆ side := by
  rw [cell]
  split
  · exact hgathers.subset
  · exact Finset.singleton_subset_iff.mpr hnode

theorem toFinset_others (node : Nat) {other : Nat} (hother : other ∈ side) :
    (assignment.others node (assignment.communityOf other)).toFinset =
      (cell core other).erase node := by
  ext next
  rw [List.mem_toFinset, mem_others, Finset.mem_erase, and_comm]
  refine and_congr_right fun _ => ?_
  by_cases hlt : next < assignment.community.size
  · rw [and_iff_right hlt, eq_comm, hgathers.together_iff other hother next hlt]
    by_cases hmem : other ∈ core
    · rw [cell_of_mem hmem]
      constructor
      · rintro (rfl | hboth)
        · exact hmem
        · exact hboth.2
      · exact fun hin => .inr ⟨hmem, hin⟩
    · rw [cell_of_not_mem hmem, Finset.mem_singleton, eq_comm]
      exact or_iff_left fun hboth => hmem hboth.1
  · exact iff_of_false (fun hin => hlt hin.1)
      fun hin => hlt (hgathers.lt_size next (hgathers.cell_subset hother hin))

theorem others_subset (node : Nat) {other : Nat} (hother : other ∈ side) :
    (assignment.others node (assignment.communityOf other)).toFinset ⊆ side := by
  rw [hgathers.toFinset_others node hother]
  exact (Finset.erase_subset _ _).trans (hgathers.cell_subset hother)

/-- A node that moves takes the core with it, unless it leaves a single node behind. -/
theorem reassign {node choice : Nat} (hnode : node ∈ side) (hchoice : choice ∈ side)
    (hrest : choice ∈ core ∨ (core.erase node).card ≤ 1) :
    (assignment.reassign network node (assignment.communityOf choice)).Gathers side
      (insert node (cell core choice)) where
  subset := Finset.insert_subset hnode (hgathers.cell_subset hchoice)
  lt_size := by
    rw [size_community_reassign]
    exact hgathers.lt_size
  together_iff := by
    intro one hone other hother
    rw [size_community_reassign] at hother
    have hlt := hgathers.lt_size node hnode
    have hcell : ∀ next < assignment.community.size,
        assignment.communityOf choice = assignment.communityOf next ↔ next ∈ cell core choice := by
      intro next hnext
      rw [hgathers.together_iff choice hchoice next hnext, cell]
      grind
    rw [communityOf_reassign hlt, communityOf_reassign hlt]
    by_cases hfirst : node = one
    · subst hfirst
      by_cases hsecond : node = other
      · subst hsecond
        simp
      · rw [if_pos rfl, if_neg hsecond, hcell other hother]
        grind
    · by_cases hsecond : node = other
      · subst hsecond
        rw [if_neg hfirst, if_pos rfl, eq_comm, hcell one (hgathers.lt_size one hone)]
        grind
      · rw [if_neg hfirst, if_neg hsecond, hgathers.together_iff one hone other hother, cell]
        have hsingle : choice ∉ core → one ∈ core → other ∈ core → one = other := by
          intro hout hin hin'
          refine Finset.card_le_one.mp (hrest.resolve_left hout) one ?_ other ?_
          · exact Finset.mem_erase.mpr ⟨fun heq => hfirst heq.symm, hin⟩
          · exact Finset.mem_erase.mpr ⟨fun heq => hsecond heq.symm, hin'⟩
        grind

theorem reassign_outside {node choice : Nat} (hlt : node < assignment.community.size)
    (hnode : node ∉ side) (hchoice : choice < assignment.community.size) (hout : choice ∉ side) :
    (assignment.reassign network node (assignment.communityOf choice)).Gathers side core where
  subset := hgathers.subset
  lt_size := by
    rw [size_community_reassign]
    exact hgathers.lt_size
  together_iff := by
    intro one hone other hother
    rw [size_community_reassign] at hother
    have hfirst : node ≠ one := fun heq => hnode (heq ▸ hone)
    have hcore : ∀ {next}, next ∉ side → next ∉ core := fun hnext hin => hnext (hgathers.subset hin)
    rw [communityOf_reassign hlt, communityOf_reassign hlt, if_neg hfirst]
    split
    · next hsecond =>
        subst hsecond
        rw [hgathers.together_iff one hone choice hchoice]
        refine iff_of_false ?_ ?_
        · rintro (rfl | hboth)
          · exact hout hone
          · exact hcore hout hboth.2
        · rintro (rfl | hboth)
          · exact hnode hone
          · exact hcore hnode hboth.2
    · exact hgathers.together_iff one hone other hother

end Assignment.Gathers

theorem Assignment.gathers_singletons {network : Network} {side : Finset Nat}
    (hside : ∀ node ∈ side, node < network.size) : (singletons network).Gathers side ∅ where
  subset := Finset.empty_subset side
  lt_size := by
    rw [size_community_singletons]
    exact hside
  together_iff := by
    intro one hone other hother
    rw [size_community_singletons] at hother
    rw [communityOf_singletons (hside one hone), communityOf_singletons hother]
    simp

end CodeGraph
