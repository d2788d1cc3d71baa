import CodeGraph.Proofs.Graph.Levels
import Mathlib.Data.List.Forall2
import Mathlib.Data.List.Nodup
import Mathlib.Data.Nat.Find

namespace CodeGraph

/-! Searches by levels and distances.  A search sees only its frontier and what it has met before,
and yet each level holds exactly the nodes of one distance. -/

section Distances

variable {α : Type} {step : α → α → Prop} {start node : α} {count fewer : Nat}

/-- A way that takes so many steps. -/
inductive Hops (step : α → α → Prop) (start : α) : Nat → α → Prop
  | refl : Hops step start 0 start
  | tail {count : Nat} {before after : α} (hops : Hops step start count before)
      (hstep : step before after) : Hops step start (count + 1) after

namespace Hops

theorem head {first : α} (hstep : step start first) (hops : Hops step first count node) :
    Hops step start (count + 1) node := by
  induction hops with
  | refl => exact .tail .refl hstep
  | tail _ hlast ih => exact ih.tail hlast

theorem backward (hops : Hops step start count node) : Hops (flip step) node count start := by
  induction hops with
  | refl => exact .refl
  | tail _ hstep ih => exact ih.head hstep

end Hops

/-- The fewest steps that lead to a node. -/
structure Distance (step : α → α → Prop) (start : α) (count : Nat) (node : α) : Prop where
  reached : Hops step start count node
  least : ∀ fewer, Hops step start fewer node → count ≤ fewer

theorem Hops.exists_distance (hops : Hops step start count node) :
    ∃ fewer ≤ count, Distance step start fewer node := by
  classical
  have hreached : ∃ fewer, Hops step start fewer node := ⟨count, hops⟩
  exact ⟨Nat.find hreached, Nat.find_min' hreached hops, Nat.find_spec hreached,
    fun _ hother => Nat.find_min' hreached hother⟩

namespace Distance

theorem unique (hdistance : Distance step start count node)
    (hother : Distance step start fewer node) : count = fewer :=
  Nat.le_antisymm (hdistance.least fewer hother.reached) (hother.least count hdistance.reached)

theorem refl : Distance step start 0 start :=
  ⟨.refl, fun _ _ => Nat.zero_le _⟩

theorem ne_start (hdistance : Distance step start count node) (hpos : 0 < count) :
    node ≠ start := by
  rintro rfl
  have hzero : count = 0 := hdistance.unique .refl
  omega

theorem backward (hdistance : Distance step start count node) :
    Distance (flip step) node count start where
  reached := hdistance.reached.backward
  least := fun fewer hops => hdistance.least fewer hops.backward

/-- The last step on a shortest way starts one step nearer. -/
theorem exists_before (hdistance : Distance step start (count + 1) node) :
    ∃ before, Distance step start count before ∧ step before node := by
  cases hdistance.reached with
  | @tail _ before _ hops hstep =>
      refine ⟨before, ⟨hops, ?_⟩, hstep⟩
      intro fewer hfewer
      exact Nat.le_of_succ_le_succ (hdistance.least (fewer + 1) (hfewer.tail hstep))

theorem exists_nearer (hdistance : Distance step start count node) (hle : fewer ≤ count) :
    ∃ nearer, Distance step start fewer nearer := by
  induction hle using Nat.decreasingInduction with
  | self => exact ⟨node, hdistance⟩
  | of_succ fewer _ ih =>
      obtain ⟨after, hafter⟩ := ih
      obtain ⟨before, hbefore, -⟩ := hafter.exists_before
      exact ⟨before, hbefore⟩

theorem count_eq_zero (hstuck : ∀ after, ¬step start after)
    (hdistance : Distance step start count node) : count = 0 := by
  by_contra hpos
  obtain ⟨after, hafter⟩ := hdistance.exists_nearer (Nat.one_le_iff_ne_zero.mpr hpos)
  obtain ⟨before, hbefore, hstep⟩ := hafter.exists_before
  cases hbefore.reached
  exact hstuck after hstep

end Distance

theorem exists_distance_iff {depth : Nat} :
    (∃ place < depth, Distance step start (1 + place) node) ↔
      node ≠ start ∧ ∃ count ≤ depth, Hops step start count node := by
  constructor
  · rintro ⟨place, hplace, hdistance⟩
    exact ⟨hdistance.ne_start (by omega), 1 + place, by omega, hdistance.reached⟩
  · rintro ⟨hne, count, hle, hops⟩
    obtain ⟨fewer, hfewer, hdistance⟩ := hops.exists_distance
    cases fewer with
    | zero =>
        cases hdistance.reached
        exact absurd rfl hne
    | succ place => exact ⟨place, by omega, Nat.add_comm place 1 ▸ hdistance⟩

theorem distance_flip : Distance (flip step) node count start ↔ Distance step start count node :=
  ⟨fun hdistance => hdistance.backward, fun hdistance => hdistance.backward⟩

/-! Lists of distance classes -/

/-- The classes of the distances from `first` on, at most `depth` of them and none that is empty. -/
structure ListsDistances (step : α → α → Prop) (start : α) (first depth : Nat)
    (levels : List (List α)) : Prop where
  length_le : levels.length ≤ depth
  mem_iff : ∀ place level, levels[place]? = some level →
    ∀ node, node ∈ level ↔ Distance step start (first + place) node
  nodup : ∀ level ∈ levels, level.Nodup
  ne_nil : ∀ level ∈ levels, level ≠ []
  complete : levels.length < depth → ∀ node, ¬Distance step start (first + levels.length) node

namespace ListsDistances

variable {first depth : Nat} {levels others : List (List α)}

theorem nil (hnone : 0 < depth → ∀ node, ¬Distance step start first node) :
    ListsDistances step start first depth [] where
  length_le := Nat.zero_le depth
  mem_iff := by simp
  nodup := by simp
  ne_nil := by simp
  complete := hnone

theorem cons {level : List α} (hlevel : ∀ node, node ∈ level ↔ Distance step start first node)
    (hnodup : level.Nodup) (hne : level ≠ [])
    (hlists : ListsDistances step start (first + 1) depth levels) :
    ListsDistances step start first (depth + 1) (level :: levels) where
  length_le := Nat.succ_le_succ hlists.length_le
  mem_iff := by
    intro place other hother
    cases place with
    | zero =>
        cases hother
        exact hlevel
    | succ place =>
        rw [Nat.add_comm place, ← Nat.add_assoc]
        exact hlists.mem_iff place other hother
  nodup := List.forall_mem_cons.mpr ⟨hnodup, hlists.nodup⟩
  ne_nil := List.forall_mem_cons.mpr ⟨hne, hlists.ne_nil⟩
  complete := by
    intro hless
    rw [List.length_cons, Nat.add_comm levels.length, ← Nat.add_assoc]
    exact hlists.complete (Nat.lt_of_succ_lt_succ hless)

variable (hlists : ListsDistances step start first depth levels)

include hlists

theorem lt_length_of_distance {place : Nat} (hplace : place < depth)
    (hdistance : Distance step start (first + place) node) : place < levels.length := by
  by_contra hout
  have hle : levels.length ≤ place := Nat.le_of_not_lt hout
  obtain ⟨nearer, hnearer⟩ := hdistance.exists_nearer (Nat.add_le_add_left hle first)
  exact hlists.complete (Nat.lt_of_le_of_lt hle hplace) nearer hnearer

theorem exists_level_iff {place : Nat} :
    (∃ level, levels[place]? = some level ∧ node ∈ level) ↔
      place < depth ∧ Distance step start (first + place) node := by
  constructor
  · rintro ⟨level, hlevel, hnode⟩
    obtain ⟨hlt, -⟩ := List.getElem?_eq_some_iff.mp hlevel
    exact ⟨Nat.lt_of_lt_of_le hlt hlists.length_le,
      (hlists.mem_iff place level hlevel node).mp hnode⟩
  · rintro ⟨hplace, hdistance⟩
    have hlt := hlists.lt_length_of_distance hplace hdistance
    have hlevel : levels[place]? = some levels[place] := List.getElem?_eq_getElem hlt
    exact ⟨_, hlevel, (hlists.mem_iff place _ hlevel node).mpr hdistance⟩

theorem mem_flatten_iff :
    node ∈ levels.flatten ↔ ∃ place < depth, Distance step start (first + place) node := by
  rw [List.mem_flatten]
  constructor
  · rintro ⟨level, hlevel, hnode⟩
    obtain ⟨place, hplace⟩ := List.mem_iff_getElem?.mp hlevel
    exact ⟨place, hlists.exists_level_iff.mp ⟨level, hplace, hnode⟩⟩
  · rintro ⟨place, hdistance⟩
    obtain ⟨level, hlevel, hnode⟩ := hlists.exists_level_iff.mpr hdistance
    exact ⟨level, List.mem_of_getElem? hlevel, hnode⟩

theorem pairwise_levels :
    levels.Pairwise fun near far => ∃ m n, m < n ∧ (∀ a ∈ near, Distance step start m a) ∧
      ∀ b ∈ far, Distance step start n b := by
  rw [List.pairwise_iff_getElem]
  intro i j hi hj hless
  have hnear := hlists.mem_iff i _ (List.getElem?_eq_getElem hi)
  have hfar := hlists.mem_iff j _ (List.getElem?_eq_getElem hj)
  exact ⟨first + i, first + j, Nat.add_lt_add_left hless first, fun a ha => (hnear a).mp ha,
    fun b hb => (hfar b).mp hb⟩

theorem pairwise_flatten :
    levels.flatten.Pairwise fun a b => ∀ m n,
      Distance step start m a → Distance step start n b → m ≤ n := by
  rw [List.pairwise_flatten]
  constructor
  · intro level hlevel
    obtain ⟨place, hplace⟩ := List.mem_iff_getElem?.mp hlevel
    have hmem := hlists.mem_iff place level hplace
    rw [List.pairwise_iff_forall_sublist]
    intro a b hpair m n hm hn
    have ha : a ∈ level := hpair.subset (by simp)
    have hb : b ∈ level := hpair.subset (by simp)
    have hleft : m = first + place := hm.unique ((hmem a).mp ha)
    have hright : n = first + place := hn.unique ((hmem b).mp hb)
    omega
  · refine hlists.pairwise_levels.imp ?_
    rintro near far ⟨i, j, hless, hnear, hfar⟩ a ha b hb m n hm hn
    have hleft : m = i := hm.unique (hnear a ha)
    have hright : n = j := hn.unique (hfar b hb)
    omega

theorem nodup_flatten : levels.flatten.Nodup := by
  rw [List.nodup_flatten]
  refine ⟨hlists.nodup, hlists.pairwise_levels.imp ?_⟩
  rintro near far ⟨i, j, hless, hnear, hfar⟩ node hnode hother
  exact Nat.ne_of_lt hless ((hnear node hnode).unique (hfar node hother))

theorem length_le_of_listsDistances
    (hothers : ListsDistances step start first depth others) : levels.length ≤ others.length := by
  by_contra hmore
  have hlt : others.length < levels.length := Nat.lt_of_not_le hmore
  have hlevel : levels[others.length]? = some levels[others.length] :=
    List.getElem?_eq_getElem hlt
  obtain ⟨node, hnode⟩ := List.exists_mem_of_ne_nil _ (hlists.ne_nil _ (List.getElem_mem hlt))
  have hdistance := (hlists.mem_iff _ _ hlevel node).mp hnode
  exact hothers.complete (Nat.lt_of_lt_of_le hlt hlists.length_le) node hdistance

theorem start_not_mem_flatten (hpos : 0 < first) : start ∉ levels.flatten := by
  rw [hlists.mem_flatten_iff]
  rintro ⟨place, -, hdistance⟩
  exact hdistance.ne_start (Nat.add_pos_left hpos place) rfl

/-- Two lists of the same classes differ by the order inside the classes alone. -/
theorem forall₂_perm (hothers : ListsDistances step start first depth others) :
    List.Forall₂ List.Perm levels others := by
  rw [List.forall₂_iff_get]
  refine ⟨Nat.le_antisymm (hlists.length_le_of_listsDistances hothers)
    (hothers.length_le_of_listsDistances hlists), ?_⟩
  intro place hplace hother
  simp only [List.get_eq_getElem]
  rw [List.perm_ext_iff_of_nodup (hlists.nodup _ (List.getElem_mem hplace))
    (hothers.nodup _ (List.getElem_mem hother))]
  intro node
  rw [hlists.mem_iff place _ (List.getElem?_eq_getElem hplace),
    hothers.mem_iff place _ (List.getElem?_eq_getElem hother)]

end ListsDistances

end Distances

/-! Searches -/

section Searches

variable {α : Type} [BEq α] [LawfulBEq α] {step : α → α → Prop} {expand : List α → List α}
  {start : α}

omit [BEq α] [LawfulBEq α] in
/-- What is behind a frontier, in any order. -/
def Expands (step : α → α → Prop) (expand : List α → List α) : Prop :=
  ∀ frontier node, node ∈ expand frontier ↔ ∃ before ∈ frontier, step before node

omit [BEq α] [LawfulBEq α] in
theorem expands_flatMap {next : α → List α}
    (hnext : ∀ node after, after ∈ next node ↔ step node after) :
    Expands step fun frontier => frontier.flatMap next := by
  intro frontier after
  simp only [List.mem_flatMap, hnext]

omit [BEq α] [LawfulBEq α] in
/-- A search that has come to some distance. -/
structure HasReached (step : α → α → Prop) (start : α) (count : Nat) (seen frontier : List α) :
    Prop where
  mem_frontier : ∀ node, node ∈ frontier ↔ Distance step start count node
  mem_seen : ∀ node, node ∈ seen ↔ ∃ fewer ≤ count, Distance step start fewer node

namespace HasReached

variable {count : Nat} {seen frontier : List α}

omit [BEq α] [LawfulBEq α] in
theorem refl : HasReached step start 0 [start] [start] := by
  have hstart : ∀ node, node ∈ [start] ↔ Distance step start 0 node := by
    intro node
    rw [List.mem_singleton]
    constructor
    · rintro rfl
      exact .refl
    · intro hdistance
      cases hdistance.reached
      rfl
  refine ⟨hstart, fun node => ?_⟩
  rw [hstart]
  simp

variable (hexpands : Expands step expand)
  (hreached : HasReached step start count seen frontier)

include hexpands hreached

theorem mem_next {node : α} :
    node ∈ firstBy id seen (expand frontier) ↔ Distance step start (count + 1) node := by
  rw [mem_firstBy_id, hexpands, hreached.mem_seen]
  constructor
  · rintro ⟨⟨before, hbefore, hstep⟩, hnew⟩
    have hops := ((hreached.mem_frontier before).mp hbefore).reached.tail hstep
    obtain ⟨fewer, hle, hdistance⟩ := hops.exists_distance
    have hlast : fewer = count + 1 := by
      by_contra hne
      exact hnew ⟨fewer, by omega, hdistance⟩
    exact hlast ▸ hdistance
  · intro hdistance
    obtain ⟨before, hbefore, hstep⟩ := hdistance.exists_before
    refine ⟨⟨before, (hreached.mem_frontier before).mpr hbefore, hstep⟩, ?_⟩
    rintro ⟨fewer, hle, hother⟩
    have hsame : count + 1 = fewer := hdistance.unique hother
    omega

theorem next : HasReached step start (count + 1) (seen ++ firstBy id seen (expand frontier))
    (firstBy id seen (expand frontier)) where
  mem_frontier := fun _ => hreached.mem_next hexpands
  mem_seen := by
    intro node
    rw [List.mem_append, hreached.mem_seen, hreached.mem_next hexpands]
    constructor
    · rintro (⟨fewer, hle, hdistance⟩ | hdistance)
      · exact ⟨fewer, Nat.le_succ_of_le hle, hdistance⟩
      · exact ⟨count + 1, Nat.le_refl _, hdistance⟩
    · rintro ⟨fewer, hle, hdistance⟩
      rcases Nat.le_succ_iff.mp hle with hold | rfl
      · exact .inl ⟨fewer, hold, hdistance⟩
      · exact .inr hdistance

end HasReached

/-- Each level of a search is the next distance class. -/
theorem listsDistances_levelsUpTo (hexpands : Expands step expand) {count : Nat}
    {seen frontier : List α} (hreached : HasReached step start count seen frontier) (depth : Nat) :
    ListsDistances step start (count + 1) depth (levelsUpTo expand depth seen frontier) := by
  induction depth generalizing count seen frontier with
  | zero => exact .nil fun hpos => absurd hpos (Nat.lt_irrefl 0)
  | succ depth ih =>
      rw [levelsUpTo]
      split
      · next hnone =>
          apply ListsDistances.nil
          intro _ node hdistance
          rw [← hreached.mem_next hexpands, hnone] at hdistance
          cases hdistance
      · next hsome =>
          exact .cons (fun _ => hreached.mem_next hexpands) (nodup_firstBy_id _ _) hsome
            (ih (hreached.next hexpands))

theorem listsDistances_levels (hexpands : Expands step expand) (depth : Nat) :
    ListsDistances step start 1 depth (levels expand depth start) :=
  listsDistances_levelsUpTo hexpands .refl depth

end Searches

end CodeGraph
