import CodeGraph.Proofs.Graph.Exploration
import Mathlib.Data.List.Nodup

namespace CodeGraph

/-! A search against the links, from the nodes that a search along them finished last, finds the
strongly connected components one by one. -/

variable {next back : Nat → List Nat}

/-- The second search reads every link from its other end. -/
def Opposite (next back : Nat → List Nat) : Prop :=
  ∀ a b, b ∈ back a ↔ a ∈ next b

/-- Nodes that lead to each other. -/
def Mutual (next : Nat → List Nat) (a b : Nat) : Prop :=
  Leads next [] a b ∧ Leads next [] b a

theorem Leads.head {a b c : Nat} (hstep : b ∈ next a) (hleads : Leads next [] b c) :
    Leads next [] a c :=
  (Leads.step hstep List.not_mem_nil).trans hleads

theorem Opposite.symm (hback : Opposite next back) : Opposite back next :=
  fun a b => (hback b a).symm

theorem Opposite.leads (hback : Opposite next back) {a b : Nat} (hleads : Leads next [] a b) :
    Leads back [] b a := by
  induction hleads with
  | refl => exact .refl
  | tail _ hstep ih => exact .head ((hback _ _).mpr hstep.1) ih

namespace Mutual

variable {a b c : Nat}

theorem refl : Mutual next a a :=
  ⟨.refl, .refl⟩

theorem symm (hmutual : Mutual next a b) : Mutual next b a :=
  ⟨hmutual.2, hmutual.1⟩

theorem trans (hfirst : Mutual next a b) (hsecond : Mutual next b c) : Mutual next a c :=
  ⟨hfirst.1.trans hsecond.1, hsecond.2.trans hfirst.2⟩

theorem opposite (hback : Opposite next back) (hmutual : Mutual next a b) : Mutual back a b :=
  ⟨hback.leads hmutual.2, hback.leads hmutual.1⟩

/-- Mutual nodes are joined by ways through nodes that are mutual with them. -/
theorem leads_avoiding {seen : List Nat} (hseen : ∀ c, Mutual next a c → c ∉ seen)
    (hmutual : Mutual next a b) : Leads next seen a b := by
  obtain ⟨hto, hfro⟩ := hmutual
  induction hto with
  | refl => exact .refl
  | @tail b c hto hstep ih =>
      exact (ih (.head hstep.1 hfro)).tail hstep.1 (hseen c ⟨hto.tail hstep, hfro⟩)

end Mutual

/-! Groups -/

/-- Groups of mutual nodes in which each of some nodes is once. -/
structure Grouped (next : Nat → List Nat) (nodes : List Nat) (groups : List (List Nat)) :
    Prop where
  nodup : groups.flatten.Nodup
  mem_flatten : ∀ a, a ∈ groups.flatten ↔ a ∈ nodes
  ne_nil : ∀ group ∈ groups, group ≠ []
  mem_group : ∀ group ∈ groups, ∀ a ∈ group, ∀ b, b ∈ group ↔ Mutual next a b

namespace Grouped

variable {nodes : List Nat} {groups : List (List Nat)}

theorem nil : Grouped next [] [] where
  nodup := List.nodup_nil
  mem_flatten := by simp
  ne_nil := by simp
  mem_group := by simp

theorem concat {more group : List Nat} {node : Nat} (hgrouped : Grouped next nodes groups)
    (hnew : ∀ a ∈ group, a ∉ nodes) (hnodup : group.Nodup)
    (hgroup : ∀ a, a ∈ group ↔ Mutual next node a)
    (hmore : ∀ a, a ∈ more ↔ a ∈ group ∨ a ∈ nodes) : Grouped next more (groups ++ [group]) := by
  have hflatten : (groups ++ [group]).flatten = groups.flatten ++ group := by simp
  refine ⟨?_, ?_, ?_, ?_⟩
  · rw [hflatten]
    refine List.nodup_append.mpr ⟨hgrouped.nodup, hnodup, ?_⟩
    rintro a ha _ hb rfl
    exact hnew a hb ((hgrouped.mem_flatten a).mp ha)
  · intro a
    rw [hflatten, List.mem_append, hgrouped.mem_flatten, hmore, or_comm]
  · intro other hother
    rcases List.mem_append.mp hother with hold | hlast
    · exact hgrouped.ne_nil other hold
    · rw [List.mem_singleton.mp hlast]
      exact List.ne_nil_of_mem ((hgroup node).mpr .refl)
  · intro other hother a ha b
    rcases List.mem_append.mp hother with hold | hlast
    · exact hgrouped.mem_group other hold a ha b
    · rw [List.mem_singleton.mp hlast] at ha ⊢
      have hroot : Mutual next node a := (hgroup a).mp ha
      rw [hgroup]
      exact ⟨hroot.symm.trans, hroot.trans⟩

theorem exists_mem {a : Nat} (hgrouped : Grouped next nodes groups) (ha : a ∈ nodes) :
    ∃ group ∈ groups, a ∈ group :=
  List.mem_flatten.mp ((hgrouped.mem_flatten a).mpr ha)

theorem nodup_group (hgrouped : Grouped next nodes groups) {group : List Nat}
    (hgroup : group ∈ groups) : group.Nodup :=
  (List.nodup_flatten.mp hgrouped.nodup).1 group hgroup

theorem index_unique (hgrouped : Grouped next nodes groups) {a i j : Nat} {first second : List Nat}
    (hfirst : groups[i]? = some first) (hsecond : groups[j]? = some second) (ha : a ∈ first)
    (ha' : a ∈ second) : i = j := by
  have hdisjoint := List.pairwise_iff_getElem.mp (List.nodup_flatten.mp hgrouped.nodup).2
  obtain ⟨hi, rfl⟩ := List.getElem?_eq_some_iff.mp hfirst
  obtain ⟨hj, rfl⟩ := List.getElem?_eq_some_iff.mp hsecond
  rcases Nat.lt_trichotomy i j with hlt | rfl | hlt
  · exact absurd ha' (hdisjoint i j hi hj hlt ha)
  · rfl
  · exact absurd ha (hdisjoint j i hj hi hlt ha')

/-- There is a group of several nodes if and only if different nodes are mutual. -/
theorem exists_long_iff (hgrouped : Grouped next nodes groups) :
    (∃ group ∈ groups, 1 < group.length) ↔ ∃ a ∈ nodes, ∃ b, a ≠ b ∧ Mutual next a b := by
  constructor
  · rintro ⟨group, hgroup, hlong⟩
    match group, hlong with
    | a :: b :: rest, _ =>
        have hne : a ≠ b := by
          rintro rfl
          simpa using hgrouped.nodup_group hgroup
        refine ⟨a, (hgrouped.mem_flatten a).mp ?_, b, hne, ?_⟩
        · exact List.mem_flatten_of_mem hgroup List.mem_cons_self
        · exact (hgrouped.mem_group _ hgroup a List.mem_cons_self b).mp (by simp)
  · rintro ⟨a, ha, b, hne, hmutual⟩
    obtain ⟨group, hgroup, hmem⟩ := hgrouped.exists_mem ha
    have hmem' : b ∈ group := (hgrouped.mem_group group hgroup a hmem b).mpr hmutual
    refine ⟨group, hgroup, ?_⟩
    match group, hmem, hmem' with
    | [c], hmem, hmem' =>
        exact absurd ((List.mem_singleton.mp hmem).trans (List.mem_singleton.mp hmem').symm) hne
    | c :: d :: rest, _, _ => simp

end Grouped

/-! Collecting the groups -/

/-- An order in which a search along the links finishes all nodes below a bound, the last one
first. -/
structure Finishes (next : Nat → List Nat) (size : Nat) (order : List Nat) : Prop where
  nodup : order.Nodup
  mem_iff : ∀ a, a ∈ order ↔ a < size
  order : ∀ a ∈ order, ∀ b, Leads next [] a b → ∃ c, Mutual next a c ∧ NotAfter order c b

theorem Leads.lt {size a b : Nat} (hnext : ∀ a, ∀ b ∈ next a, b < size) (ha : a < size)
    (hleads : Leads next [] a b) : b < size := by
  cases hleads with
  | refl => exact ha
  | tail _ hstep => exact hnext _ _ hstep.1

namespace Digraph

theorem finishes_byFinish (graph : Digraph) (hnext : ∀ a, ∀ b ∈ next a, b < graph.size) :
    Finishes next graph.size (graph.byFinish next) := by
  have hfound := graph.found_byFinish hnext
  refine ⟨hfound.nodup, ?_, ?_⟩
  · intro a
    rw [hfound.mem_iff]
    constructor
    · rintro ⟨start, hstart, -, hleads⟩
      exact hleads.lt hnext (List.mem_range.mp hstart)
    · intro ha
      exact ⟨a, List.mem_range.mpr ha, List.not_mem_nil, .refl⟩
  · intro a ha b hleads
    obtain ⟨c, hto, hfro, hplace⟩ := hfound.order a ha b hleads
    exact ⟨c, ⟨hto, hfro⟩, hplace⟩

end Digraph

/-- The nodes that are mutual with one that is done. -/
structure Collected (next : Nat → List Nat) (done : List Nat) (state : List Nat × List (List Nat)) :
    Prop where
  mem_seen : ∀ a, a ∈ state.1 ↔ ∃ root ∈ done, Mutual next root a
  grouped : Grouped next state.1 state.2

namespace Collected

variable {size : Nat} {done rest : List Nat} {state : List Nat × List (List Nat)} {node : Nat}

theorem not_seen_of_mutual (hcollected : Collected next done state) (hnew : node ∉ state.1)
    {a : Nat} (hmutual : Mutual next node a) : a ∉ state.1 := by
  intro hseen
  obtain ⟨root, hroot, hjoined⟩ := (hcollected.mem_seen a).mp hseen
  exact hnew ((hcollected.mem_seen node).mpr ⟨root, hroot, hjoined.trans hmutual.symm⟩)

/-- A search against the links from the first node that no group has finds what is mutual with
it. -/
theorem leads_iff_mutual (hback : Opposite next back) (hcollected : Collected next done state)
    (hfinishes : Finishes next size (done ++ node :: rest)) (hnew : node ∉ state.1)
    (hbound : ∀ a, Leads back state.1 node a → a < size) {a : Nat} :
    Leads back state.1 node a ↔ Mutual next node a := by
  constructor
  · intro hleads
    have hto : Leads next [] a node := hback.symm.leads (hleads.mono (by simp))
    obtain ⟨c, hmutual, hplace⟩ :=
      hfinishes.order a ((hfinishes.mem_iff a).mpr (hbound a hleads)) node hto
    rcases hplace.eq_or_mem hfinishes.nodup with rfl | hdone
    · exact hmutual.symm
    · -- A root that is done would have put the node into a group.
      have hseen : a ∈ state.1 := (hcollected.mem_seen a).mpr ⟨c, hdone, hmutual.symm⟩
      cases hleads with
      | refl => exact absurd hseen hnew
      | tail _ hstep => exact absurd hseen hstep.2
  · intro hmutual
    refine (hmutual.opposite hback).leads_avoiding fun c hc => ?_
    exact hcollected.not_seen_of_mutual hnew (hc.opposite hback.symm)

theorem collect {graph : Digraph} (hback : Opposite next back)
    (hbound : ∀ a, ∀ b ∈ back a, b < graph.size) (hcollected : Collected next done state)
    (hfinishes : Finishes next graph.size (done ++ node :: rest)) :
    Collected next (done ++ [node]) (graph.collect back state node) := by
  have hnode : node < graph.size := (hfinishes.mem_iff node).mp (by simp)
  have hconcat : ∀ a, (∃ root ∈ done ++ [node], Mutual next root a) ↔
      (∃ root ∈ done, Mutual next root a) ∨ Mutual next node a := by
    intro a
    simp only [List.mem_append, List.mem_singleton, or_and_right, exists_or, exists_eq_left]
  obtain ⟨seen, groups⟩ := state
  rw [Digraph.collect]
  dsimp only
  split
  · next hseen =>
      -- The node is in a group, so that it adds nothing.
      obtain ⟨root, hroot, hjoined⟩ :=
        (hcollected.mem_seen node).mp (List.contains_iff_mem.mp hseen)
      refine ⟨?_, hcollected.grouped⟩
      intro a
      rw [hcollected.mem_seen, hconcat]
      constructor
      · exact .inl
      · rintro (hold | hmutual)
        · exact hold
        · exact ⟨root, hroot, hjoined.trans hmutual⟩
  · next hnew =>
      have hnew : node ∉ seen := by simpa using hnew
      obtain ⟨found, hfinished, hseen, hfound⟩ : Explores back [node] { seen := seen }
          (Digraph.explore back graph.size { seen := seen } node) :=
        Digraph.explores_explore hbound hnode
          ((unseen_le _ _).trans_eq List.length_range)
      have hmem : ∀ a, a ∈ found ↔ Mutual next node a := by
        intro a
        rw [hfound.mem_iff, ← hcollected.leads_iff_mutual hback hfinishes hnew]
        · simp [hnew]
        · intro b hleads
          exact (hleads.mono (by simp)).lt hbound hnode
      rw [hfinished, List.append_nil]
      refine ⟨?_, hcollected.grouped.concat (fun a => hfound.not_seen) hfound.nodup hmem hseen⟩
      intro a
      rw [hseen, hmem, hcollected.mem_seen, hconcat, or_comm]

theorem foldl_collect {graph : Digraph} (hback : Opposite next back)
    (hbound : ∀ a, ∀ b ∈ back a, b < graph.size) (hcollected : Collected next done state)
    (hfinishes : Finishes next graph.size (done ++ rest)) :
    Collected next (done ++ rest) (rest.foldl (graph.collect back) state) := by
  induction rest generalizing done state with
  | nil => simpa using hcollected
  | cons node rest ih =>
      have hstep := hcollected.collect hback hbound hfinishes
      rw [List.append_cons] at hfinishes ⊢
      exact ih hstep hfinishes

end Collected

namespace Digraph

theorem grouped_groups {graph : Digraph} (hback : Opposite next back)
    (hnext : ∀ a, ∀ b ∈ next a, b < graph.size) (hbound : ∀ a, ∀ b ∈ back a, b < graph.size) :
    Grouped next graph.nodes (graph.groups back (graph.byFinish next)) := by
  have hfinishes := graph.finishes_byFinish hnext
  have hstart : Collected next [] ([], []) := ⟨by simp, .nil⟩
  have hcollected : Collected next (graph.byFinish next)
      ((graph.byFinish next).foldl (graph.collect back) ([], [])) :=
    hstart.foldl_collect hback hbound hfinishes
  refine { hcollected.grouped with mem_flatten := ?_ }
  intro a
  rw [groups, hcollected.grouped.mem_flatten, hcollected.mem_seen, nodes, List.mem_range]
  constructor
  · rintro ⟨root, hroot, hmutual⟩
    exact hmutual.1.lt hnext ((hfinishes.mem_iff root).mp hroot)
  · intro ha
    exact ⟨a, (hfinishes.mem_iff a).mpr ha, .refl⟩

/-! Links -/

def Bounded (graph : Digraph) : Prop :=
  ∀ link ∈ graph.links, link.1 < graph.size ∧ link.2 < graph.size

theorem mem_successors {graph : Digraph} {a b : Nat} :
    b ∈ graph.successors a ↔ (a, b) ∈ graph.links := by
  simp [successors]

theorem mem_predecessors {graph : Digraph} {a b : Nat} :
    b ∈ graph.predecessors a ↔ (b, a) ∈ graph.links := by
  simp [predecessors]

theorem opposite (graph : Digraph) : Opposite graph.successors graph.predecessors :=
  fun _ _ => mem_predecessors.trans mem_successors.symm

theorem Bounded.successors_lt {graph : Digraph} (hbounded : graph.Bounded) (a b : Nat)
    (hb : b ∈ graph.successors a) : b < graph.size :=
  (hbounded _ (mem_successors.mp hb)).2

theorem Bounded.predecessors_lt {graph : Digraph} (hbounded : graph.Bounded) (a b : Nat)
    (hb : b ∈ graph.predecessors a) : b < graph.size :=
  (hbounded _ (mem_predecessors.mp hb)).1

theorem mem_links_ofLinks {size a b : Nat} {links : List (Nat × Nat)} :
    (a, b) ∈ (ofLinks size links).links ↔ (a, b) ∈ links ∧ a ≠ b := by
  simp [ofLinks, List.mem_eraseDups]

/-! Sorting -/

def Cyclic (graph : Digraph) : Prop :=
  ∃ a ∈ graph.nodes, ∃ b, a ≠ b ∧ Mutual graph.successors a b

theorem sorted?_eq_none_iff {graph : Digraph} (hbounded : graph.Bounded) :
    graph.sorted? = none ↔ graph.Cyclic := by
  have hgrouped := grouped_groups graph.opposite hbounded.successors_lt hbounded.predecessors_lt
  rw [Cyclic, ← hgrouped.exists_long_iff, sorted?]
  simp

theorem sorted?_eq_some {graph : Digraph} {order : List Nat}
    (hsorted : graph.sorted? = some order) : order = graph.byFinish graph.successors := by
  simp only [sorted?] at hsorted
  split at hsorted
  · cases hsorted
  · exact (Option.some.inj hsorted).symm

/-- Without cycles each node is in front of those it has links to. -/
theorem sublist_of_sorted? {graph : Digraph} (hbounded : graph.Bounded) {order : List Nat}
    (hsorted : graph.sorted? = some order) {a b : Nat} (hne : a ≠ b)
    (hlink : (a, b) ∈ graph.links) : [a, b].Sublist order := by
  have hfinishes := graph.finishes_byFinish hbounded.successors_lt
  rw [← sorted?_eq_some hsorted] at hfinishes
  have hacyclic : ¬ graph.Cyclic := by
    rw [← sorted?_eq_none_iff hbounded, hsorted]
    exact Option.some_ne_none order
  have ha : a ∈ order := (hfinishes.mem_iff a).mpr (hbounded _ hlink).1
  obtain ⟨c, hmutual, hplace⟩ :=
    hfinishes.order a ha b (.step (mem_successors.mpr hlink) List.not_mem_nil)
  have hsame : a = c := by
    by_contra hother
    exact hacyclic ⟨a, List.mem_range.mpr (hbounded _ hlink).1, c, hother, hmutual⟩
  subst hsame
  exact hplace.resolve_left fun hequal => hne hequal.1

end Digraph

end CodeGraph
