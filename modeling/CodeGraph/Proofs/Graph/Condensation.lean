import CodeGraph.Proofs.Graph.Components
import Mathlib.Data.List.Perm.Basic
import Mathlib.Data.List.Flatten
import Mathlib.Data.List.Sort

namespace CodeGraph

/-! The components have an order of their own, since links between them do not go round. -/

theorem map_getD_range {α : Type} (items : List α) (other : α) :
    (List.range items.length).map (fun index => items.getD index other) = items := by
  apply List.ext_getElem
  · simp
  · intro index hindex hindex'
    simp [hindex']

namespace Grouped

variable {next : Nat → List Nat} {nodes : List Nat} {groups : List (List Nat)}

/-- Neither the order of groups nor the order in a group matters. -/
theorem of_perm {others : List (List Nat)} (hgrouped : Grouped next nodes groups)
    (hflatten : others.flatten.Perm groups.flatten)
    (hothers : ∀ other ∈ others, ∃ group ∈ groups, other.Perm group) :
    Grouped next nodes others where
  nodup := hflatten.nodup_iff.mpr hgrouped.nodup
  mem_flatten := fun a => hflatten.mem_iff.trans (hgrouped.mem_flatten a)
  ne_nil := by
    rintro other hother rfl
    obtain ⟨group, hgroup, hperm⟩ := hothers [] hother
    exact hgrouped.ne_nil group hgroup hperm.nil_eq.symm
  mem_group := by
    intro other hother a ha b
    obtain ⟨group, hgroup, hperm⟩ := hothers other hother
    rw [hperm.mem_iff] at ha ⊢
    exact hgrouped.mem_group group hgroup a ha b

theorem sorted_by {order : List Nat} (hgrouped : Grouped next nodes groups)
    (horder : order.Perm (List.range groups.length)) :
    Grouped next nodes (order.map fun index => (groups.getD index []).mergeSort) := by
  refine hgrouped.of_perm ?_ ?_
  · have hinside : (order.flatMap fun index => (groups.getD index []).mergeSort).Perm
        (order.flatMap fun index => groups.getD index []) :=
      List.Perm.flatMap_left order fun index _ => List.mergeSort_perm _ _
    have hacross := horder.flatMap_right fun index => groups.getD index []
    rw [List.flatMap_def, List.flatMap_def] at hacross hinside
    rw [map_getD_range] at hacross
    exact hinside.trans hacross
  · intro other hother
    obtain ⟨index, hindex, rfl⟩ := List.mem_map.mp hother
    refine ⟨groups.getD index [], ?_, List.mergeSort_perm _ _⟩
    have hlt : index < groups.length := List.mem_range.mp (horder.mem_iff.mp hindex)
    rw [List.getD_eq_getElem?_getD, List.getElem?_eq_getElem hlt]
    exact List.getElem_mem hlt

end Grouped

namespace Digraph

/-! Components -/

theorem grouped_components {graph : Digraph} (hbounded : graph.Bounded) :
    Grouped graph.successors graph.nodes graph.components := by
  have hgrouped :=
    grouped_groups graph.opposite.symm hbounded.predecessors_lt hbounded.successors_lt
  refine { hgrouped with mem_group := ?_ }
  intro group hgroup a ha b
  rw [hgrouped.mem_group group hgroup a ha b]
  exact ⟨.opposite graph.opposite.symm, .opposite graph.opposite⟩

/-- The place of the component of a node. -/
def componentOf (graph : Digraph) (node : Nat) : Nat :=
  graph.components.findIdx fun component => component.contains node

theorem exists_component {graph : Digraph} (hbounded : graph.Bounded) {node : Nat}
    (hnode : node < graph.size) :
    ∃ component, graph.components[graph.componentOf node]? = some component ∧
      node ∈ component := by
  obtain ⟨group, hgroup, hmem⟩ :=
    (grouped_components hbounded).exists_mem (List.mem_range.mpr hnode)
  have hlt : graph.componentOf node < graph.components.length :=
    List.findIdx_lt_length_of_exists ⟨group, hgroup, List.contains_iff_mem.mpr hmem⟩
  refine ⟨_, List.getElem?_eq_getElem hlt, ?_⟩
  exact List.contains_iff_mem.mp (List.findIdx_getElem (w := hlt))

theorem mem_links_condensed {graph : Digraph} {i j : Nat} :
    (i, j) ∈ graph.condensed.links ↔
      (∃ a b, (a, b) ∈ graph.links ∧ graph.componentOf a = i ∧ graph.componentOf b = j) ∧
        i ≠ j := by
  rw [condensed, mem_links_ofLinks]
  simp [componentOf]

theorem bounded_condensed {graph : Digraph} (hbounded : graph.Bounded) :
    graph.condensed.Bounded := by
  rintro ⟨i, j⟩ hlink
  obtain ⟨⟨a, b, hab, rfl, rfl⟩, -⟩ := mem_links_condensed.mp hlink
  obtain ⟨first, hfirst, -⟩ := exists_component hbounded (hbounded _ hab).1
  obtain ⟨second, hsecond, -⟩ := exists_component hbounded (hbounded _ hab).2
  exact ⟨(List.getElem?_eq_some_iff.mp hfirst).1, (List.getElem?_eq_some_iff.mp hsecond).1⟩

/-- Where one component leads to another, each of its nodes leads to each of the other. -/
theorem leads_of_condensed {graph : Digraph} (hbounded : graph.Bounded) {i j a b : Nat}
    {first second : List Nat} (hleads : Leads graph.condensed.successors [] i j)
    (hfirst : graph.components[i]? = some first) (hsecond : graph.components[j]? = some second)
    (ha : a ∈ first) (hb : b ∈ second) : Leads graph.successors [] a b := by
  have hgrouped := grouped_components hbounded
  induction hleads generalizing second b with
  | refl =>
      rw [hfirst] at hsecond
      cases hsecond
      exact ((hgrouped.mem_group first (List.mem_of_getElem? hfirst) a ha b).mp hb).1
  | @tail k j hleads hstep ih =>
      obtain ⟨⟨u, v, huv, rfl, rfl⟩, -⟩ := mem_links_condensed.mp (mem_successors.mp hstep.1)
      obtain ⟨middle, hmiddle, hu⟩ := exists_component hbounded (hbounded _ huv).1
      obtain ⟨last, hlast, hv⟩ := exists_component hbounded (hbounded _ huv).2
      rw [hsecond] at hlast
      cases hlast
      have hto : Leads graph.successors [] a u := ih hmiddle hu
      have hinside := (hgrouped.mem_group second (List.mem_of_getElem? hsecond) v hv b).mp hb
      exact hto.trans (.head (mem_successors.mpr huv) hinside.1)

theorem not_cyclic_condensed {graph : Digraph} (hbounded : graph.Bounded) :
    ¬ graph.condensed.Cyclic := by
  rintro ⟨i, hi, j, hne, hmutual⟩
  have hgrouped := grouped_components hbounded
  have hi : i < graph.components.length := List.mem_range.mp hi
  have hj : j < graph.components.length :=
    hmutual.1.lt (bounded_condensed hbounded).successors_lt hi
  have hfirst := List.getElem?_eq_getElem hi
  have hsecond := List.getElem?_eq_getElem hj
  obtain ⟨a, ha⟩ := List.exists_mem_of_ne_nil _ (hgrouped.ne_nil _ (List.getElem_mem hi))
  obtain ⟨b, hb⟩ := List.exists_mem_of_ne_nil _ (hgrouped.ne_nil _ (List.getElem_mem hj))
  have hjoined : Mutual graph.successors a b :=
    ⟨leads_of_condensed hbounded hmutual.1 hfirst hsecond ha hb,
      leads_of_condensed hbounded hmutual.2 hsecond hfirst hb ha⟩
  have hinside := (hgrouped.mem_group _ (List.getElem_mem hi) a ha b).mpr hjoined
  exact hne (hgrouped.index_unique hfirst hsecond hinside hb)

/-! The order -/

/-- An order of the nodes in blocks, one for each component. -/
structure Layout (graph : Digraph) (order : List Nat) (isCyclic : Bool)
    (blocks : List (List Nat)) : Prop where
  flatten_eq : blocks.flatten = order
  grouped : Grouped graph.successors graph.nodes blocks
  sorted : isCyclic = true → ∀ block ∈ blocks, block.Pairwise (· ≤ ·)
  links : ∀ a b, (a, b) ∈ graph.links → ¬ Mutual graph.successors a b → [a, b].Sublist order
  cyclic_iff : isCyclic = true ↔ graph.Cyclic

namespace Layout

variable {graph : Digraph} {order : List Nat} {isCyclic : Bool} {blocks : List (List Nat)}

theorem perm_range (hlayout : graph.Layout order isCyclic blocks) :
    order.Perm (List.range graph.size) := by
  rw [← hlayout.flatten_eq]
  exact (List.perm_ext_iff_of_nodup hlayout.grouped.nodup List.nodup_range).mpr
    hlayout.grouped.mem_flatten

theorem lt_of_mem_block (hlayout : graph.Layout order isCyclic blocks) {block : List Nat}
    (hblock : block ∈ blocks) {a : Nat} (ha : a ∈ block) : a < graph.size :=
  List.mem_range.mp ((hlayout.grouped.mem_flatten a).mp (List.mem_flatten_of_mem hblock ha))

theorem sublist_range (hlayout : graph.Layout order isCyclic blocks) (hcyclic : isCyclic = true)
    {block : List Nat} (hblock : block ∈ blocks) : block.Sublist (List.range graph.size) := by
  have hsubperm : block.Subperm (List.range graph.size) :=
    (hlayout.grouped.nodup_group hblock).subperm fun a ha =>
      List.mem_range.mpr (hlayout.lt_of_mem_block hblock ha)
  exact List.sublist_of_subperm_of_pairwise hsubperm (hlayout.sorted hcyclic block hblock)
    List.pairwise_le_range

end Layout

/-- Without cycles every node is a block. -/
theorem layout_of_sorted {graph : Digraph} (hbounded : graph.Bounded) {order : List Nat}
    (hsorted : graph.sorted? = some order) :
    graph.Layout order false (order.map fun node => [node]) := by
  have hacyclic : ¬ graph.Cyclic := by
    rw [← sorted?_eq_none_iff hbounded, hsorted]
    exact Option.some_ne_none order
  have hfinishes := graph.finishes_byFinish hbounded.successors_lt
  rw [← sorted?_eq_some hsorted] at hfinishes
  have hflatten : (order.map fun node => [node]).flatten = order := by
    rw [← List.flatMap_def, List.flatMap_singleton']
  refine ⟨hflatten, ⟨?_, ?_, ?_, ?_⟩, nofun, ?_, by simpa using hacyclic⟩
  · rw [hflatten]
    exact hfinishes.nodup
  · intro a
    rw [hflatten, hfinishes.mem_iff, nodes, List.mem_range]
  · simp
  · intro block hblock a ha b
    obtain ⟨node, hnode, rfl⟩ := List.mem_map.mp hblock
    obtain rfl := List.mem_singleton.mp ha
    rw [List.mem_singleton]
    constructor
    · rintro rfl
      exact .refl
    · intro hmutual
      by_contra hne
      have ha : a ∈ graph.nodes := List.mem_range.mpr ((hfinishes.mem_iff a).mp hnode)
      exact hacyclic ⟨a, ha, b, Ne.symm hne, hmutual⟩
  · intro a b hlink hmutual
    refine sublist_of_sorted? hbounded hsorted ?_ hlink
    rintro rfl
    exact hmutual .refl

/-- With cycles the components are the blocks. -/
theorem layout_of_condensed {graph : Digraph} (hbounded : graph.Bounded) (hcyclic : graph.Cyclic)
    {order : List Nat} (hsorted : graph.condensed.sorted? = some order) :
    graph.Layout (order.flatMap fun index => (graph.components.getD index []).mergeSort) true
      (order.map fun index => (graph.components.getD index []).mergeSort) := by
  have hgrouped := grouped_components hbounded
  have hbounded' := bounded_condensed hbounded
  have hfinishes := graph.condensed.finishes_byFinish hbounded'.successors_lt
  rw [← sorted?_eq_some hsorted] at hfinishes
  have hperm : order.Perm (List.range graph.components.length) := by
    refine (List.perm_ext_iff_of_nodup hfinishes.nodup List.nodup_range).mpr fun index => ?_
    rw [hfinishes.mem_iff, List.mem_range]
    rfl
  refine ⟨List.flatMap_def.symm, hgrouped.sorted_by hperm, ?_, ?_, by simpa using hcyclic⟩
  · intro _ block hblock
    obtain ⟨index, -, rfl⟩ := List.mem_map.mp hblock
    exact List.pairwise_mergeSort' (· ≤ ·) _
  · intro a b hlink hmutual
    obtain ⟨first, hfirst, ha⟩ := exists_component hbounded (hbounded _ hlink).1
    obtain ⟨second, hsecond, hb⟩ := exists_component hbounded (hbounded _ hlink).2
    have hne : graph.componentOf a ≠ graph.componentOf b := by
      intro hsame
      rw [hsame, hsecond] at hfirst
      have hequal : second = first := Option.some.inj hfirst
      subst hequal
      exact hmutual ((hgrouped.mem_group second (List.mem_of_getElem? hsecond) a ha b).mp hb)
    have hpair : [graph.componentOf a, graph.componentOf b].Sublist order :=
      sublist_of_sorted? hbounded' hsorted hne
        (mem_links_condensed.mpr ⟨⟨a, b, hlink, rfl, rfl⟩, hne⟩)
    have hblocks := hpair.flatMap fun index => (graph.components.getD index []).mergeSort
    refine List.Sublist.trans ?_ hblocks
    simp only [List.flatMap_cons, List.flatMap_nil, List.append_nil,
      List.getD_eq_getElem?_getD, hfirst, hsecond, Option.getD_some]
    refine List.Sublist.append (List.singleton_sublist.mpr ?_) (List.singleton_sublist.mpr ?_)
    · exact (List.mergeSort_perm first _).mem_iff.mpr ha
    · exact (List.mergeSort_perm second _).mem_iff.mpr hb

/-- The order always comes in blocks, since the components can be sorted. -/
theorem exists_layout_ordered {graph : Digraph} (hbounded : graph.Bounded) :
    ∃ blocks, graph.Layout graph.ordered.1 graph.ordered.2 blocks := by
  rw [ordered]
  cases hsorted : graph.sorted? with
  | some order => exact ⟨_, layout_of_sorted hbounded hsorted⟩
  | none =>
      have hcyclic : graph.Cyclic := (sorted?_eq_none_iff hbounded).mp hsorted
      cases hcondensed : graph.condensed.sorted? with
      | some order => exact ⟨_, layout_of_condensed hbounded hcyclic hcondensed⟩
      | none =>
          have hround := (sorted?_eq_none_iff (bounded_condensed hbounded)).mp hcondensed
          exact absurd hround (not_cyclic_condensed hbounded)

end Digraph

end CodeGraph
