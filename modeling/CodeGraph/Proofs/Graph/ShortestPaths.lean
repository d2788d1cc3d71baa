import CodeGraph.Proofs.Graph.Adjacency
import Mathlib.Algebra.BigOperators.Group.Finset.Basic
import Mathlib.Data.List.Chain
import Mathlib.Data.Set.Card
import Mathlib.Data.Set.Finite.List

namespace CodeGraph

/-! How many paths there are.  A path is cut in two at any of its nodes, so that the paths through a
node are counted by those that lead to it and those that go on from it. -/

section Paths

variable {α : Type} {step : α → α → Prop} {start middle goal : α} {count more : Nat}

theorem Hops.append (hfirst : Hops step start count middle) (hsecond : Hops step middle more goal) :
    Hops step start (count + more) goal := by
  induction hsecond with
  | refl => exact hfirst
  | tail _ hstep ih => exact ih.tail hstep

/-- The nodes on a way from one node to another. -/
structure IsPath (step : α → α → Prop) (start goal : α) (nodes : List α) : Prop where
  starts : nodes.head? = some start
  stops : nodes.getLast? = some goal
  steps : nodes.IsChain step

/-- The paths of so many steps. -/
def pathsOf (step : α → α → Prop) (start : α) (count : Nat) (goal : α) : Set (List α) :=
  {nodes | IsPath step start goal nodes ∧ nodes.length = count + 1}

def shortestPaths (step : α → α → Prop) (start goal : α) : Set (List α) :=
  {nodes | IsPath step start goal nodes ∧
    ∀ other, IsPath step start goal other → nodes.length ≤ other.length}

theorem mem_pathsOf_zero {nodes : List α} :
    nodes ∈ pathsOf step start 0 goal ↔ start = goal ∧ nodes = [start] := by
  constructor
  · rintro ⟨⟨hstarts, hstops, -⟩, hlength⟩
    obtain ⟨node, rfl⟩ := List.length_eq_one_iff.mp hlength
    cases hstarts
    cases hstops
    exact ⟨rfl, rfl⟩
  · rintro ⟨rfl, rfl⟩
    exact ⟨⟨rfl, rfl, .singleton _⟩, rfl⟩

/-! Cutting and joining paths -/

theorem append_mem_pathsOf {front back : List α} (hfront : front ∈ pathsOf step start count middle)
    (hback : back ∈ pathsOf step middle more goal) :
    front ++ back.tail ∈ pathsOf step start (count + more) goal := by
  obtain ⟨hfirst, hcount⟩ := hfront
  obtain ⟨hsecond, hmore⟩ := hback
  cases back with
  | nil => cases hmore
  | cons node rest =>
      obtain rfl : node = middle := Option.some.inj hsecond.starts
      refine ⟨⟨?_, ?_, ?_⟩, ?_⟩
      · rw [List.head?_append, hfirst.starts, Option.some_or]
      · rw [List.tail_cons, List.getLast?_append, hfirst.stops]
        have hstops := hsecond.stops
        rw [List.getLast?_cons] at hstops
        cases hlast : rest.getLast? with
        | none => simpa [hlast] using hstops
        | some last => simpa [hlast] using hstops
      · refine hfirst.steps.append hsecond.steps.tail ?_
        intro before hbefore after hafter
        rw [hfirst.stops] at hbefore
        cases hbefore
        exact (List.isChain_cons.mp hsecond.steps).1 after hafter
      · rw [List.length_append, hcount, List.length_tail, hmore]
        omega

theorem take_mem_pathsOf {nodes : List α} (hnodes : nodes ∈ pathsOf step start (count + more) goal)
    (hmiddle : nodes[count]? = some middle) :
    nodes.take (count + 1) ∈ pathsOf step start count middle := by
  obtain ⟨hpath, hlength⟩ := hnodes
  refine ⟨⟨?_, ?_, hpath.steps.take _⟩, ?_⟩
  · rw [List.head?_take, if_neg (Nat.succ_ne_zero count), hpath.starts]
  · rw [List.getLast?_take, if_neg (Nat.succ_ne_zero count), Nat.add_sub_cancel, hmiddle,
      Option.some_or]
  · rw [List.length_take, hlength]
    omega

theorem drop_mem_pathsOf {nodes : List α} (hnodes : nodes ∈ pathsOf step start (count + more) goal)
    (hmiddle : nodes[count]? = some middle) :
    nodes.drop count ∈ pathsOf step middle more goal := by
  obtain ⟨hpath, hlength⟩ := hnodes
  refine ⟨⟨?_, ?_, hpath.steps.drop _⟩, ?_⟩
  · rw [List.head?_drop, hmiddle]
  · rw [List.getLast?_drop, if_neg (by omega), hpath.stops]
  · rw [List.length_drop, hlength]
    omega

theorem getElem?_append_of_mem {front : List α} (hfront : front ∈ pathsOf step start count middle)
    (back : List α) : (front ++ back)[count]? = some middle := by
  obtain ⟨hpath, hlength⟩ := hfront
  have hlast := hpath.stops
  rw [List.getLast?_eq_getElem?, hlength, Nat.add_sub_cancel] at hlast
  rw [List.getElem?_append_left (by omega), hlast]

/-- The paths with a given node in a given place are all ways to go there and on. -/
theorem pathsOf_inter_eq_image :
    pathsOf step start (count + more) goal ∩ {nodes | nodes[count]? = some middle} =
      (fun parts : List α × List α => parts.1 ++ parts.2.tail) ''
        (pathsOf step start count middle ×ˢ pathsOf step middle more goal) := by
  ext nodes
  constructor
  · rintro ⟨hnodes, hmiddle⟩
    refine ⟨(nodes.take (count + 1), nodes.drop count),
      ⟨take_mem_pathsOf hnodes hmiddle, drop_mem_pathsOf hnodes hmiddle⟩, ?_⟩
    simp
  · rintro ⟨⟨front, back⟩, ⟨hfront, hback⟩, rfl⟩
    exact ⟨append_mem_pathsOf hfront hback, getElem?_append_of_mem hfront _⟩

theorem injOn_append_tail :
    Set.InjOn (fun parts : List α × List α => parts.1 ++ parts.2.tail)
      (pathsOf step start count middle ×ˢ pathsOf step middle more goal) := by
  rintro ⟨front, back⟩ ⟨hfront, hback⟩ ⟨front', back'⟩ ⟨hfront', hback'⟩ hsame
  dsimp only at hfront hback hfront' hback' hsame
  obtain ⟨hfronts, htails⟩ := List.append_inj hsame (hfront.2.trans hfront'.2.symm)
  have hparts : ∀ {nodes : List α}, nodes ∈ pathsOf step middle more goal →
      nodes = middle :: nodes.tail := by
    rintro nodes ⟨hpath, -⟩
    cases nodes with
    | nil => cases hpath.starts
    | cons node rest =>
        cases hpath.starts
        rfl
  rw [Prod.mk.injEq]
  refine ⟨hfronts, ?_⟩
  rw [hparts hback, hparts hback', htails]

theorem ncard_pathsOf_inter :
    (pathsOf step start (count + more) goal ∩ {nodes | nodes[count]? = some middle}).ncard =
      (pathsOf step start count middle).ncard * (pathsOf step middle more goal).ncard := by
  rw [pathsOf_inter_eq_image, injOn_append_tail.ncard_image, Set.ncard_prod]

/-! Paths and steps -/

theorem mem_pathsOf_one {nodes : List α} :
    nodes ∈ pathsOf step start 1 goal ↔ step start goal ∧ nodes = [start, goal] := by
  constructor
  · rintro ⟨⟨hstarts, hstops, hsteps⟩, hlength⟩
    obtain ⟨first, second, rfl⟩ := List.length_eq_two.mp hlength
    cases hstarts
    cases hstops
    exact ⟨List.isChain_pair.mp hsteps, rfl⟩
  · rintro ⟨hstep, rfl⟩
    exact ⟨⟨rfl, rfl, List.isChain_pair.mpr hstep⟩, rfl⟩

theorem exists_getElem?_of_mem {nodes : List α} {place : Nat}
    (hnodes : nodes ∈ pathsOf step start count goal) (hplace : place ≤ count) :
    ∃ node, nodes[place]? = some node := by
  have hlength := hnodes.2
  exact ⟨_, List.getElem?_eq_getElem (by omega : place < nodes.length)⟩

theorem hops_of_mem_pathsOf {nodes : List α} (hnodes : nodes ∈ pathsOf step start count goal) :
    Hops step start count goal := by
  induction count generalizing goal nodes with
  | zero =>
      obtain ⟨rfl, -⟩ := mem_pathsOf_zero.mp hnodes
      exact .refl
  | succ count ih =>
      obtain ⟨before, hbefore⟩ := exists_getElem?_of_mem hnodes (Nat.le_succ count)
      obtain ⟨hstep, -⟩ := mem_pathsOf_one.mp (drop_mem_pathsOf hnodes hbefore)
      exact (ih (take_mem_pathsOf hnodes hbefore)).tail hstep

theorem Hops.exists_mem_pathsOf (hops : Hops step start count goal) :
    ∃ nodes, nodes ∈ pathsOf step start count goal := by
  induction hops with
  | refl => exact ⟨[start], mem_pathsOf_zero.mpr ⟨rfl, rfl⟩⟩
  | @tail count before after _ hstep ih =>
      obtain ⟨nodes, hnodes⟩ := ih
      exact ⟨_, append_mem_pathsOf hnodes (mem_pathsOf_one.mpr ⟨hstep, rfl⟩)⟩

theorem IsPath.mem_pathsOf {nodes : List α} (hpath : IsPath step start goal nodes) :
    ∃ count, nodes ∈ pathsOf step start count goal := by
  cases nodes with
  | nil => cases hpath.starts
  | cons node rest => exact ⟨rest.length, hpath, rfl⟩

/-! Shortest paths -/

theorem shortestPaths_eq (hdistance : Distance step start count goal) :
    shortestPaths step start goal = pathsOf step start count goal := by
  ext nodes
  constructor
  · rintro ⟨hpath, hleast⟩
    obtain ⟨other, hother⟩ := hdistance.reached.exists_mem_pathsOf
    obtain ⟨length, hnodes⟩ := hpath.mem_pathsOf
    have hmore := hdistance.least length (hops_of_mem_pathsOf hnodes)
    have hless := hleast other hother.1
    rw [hnodes.2, hother.2] at hless
    obtain rfl : length = count := by omega
    exact hnodes
  · intro hnodes
    refine ⟨hnodes.1, ?_⟩
    intro other hother
    obtain ⟨length, hlength⟩ := hother.mem_pathsOf
    have hmore := hdistance.least length (hops_of_mem_pathsOf hlength)
    rw [hnodes.2, hlength.2]
    omega

/-- The nodes on a shortest path are as far from its start as the path says. -/
theorem Distance.of_mem_pathsOf (hdistance : Distance step start (count + more) goal)
    {nodes : List α} (hnodes : nodes ∈ pathsOf step start (count + more) goal)
    (hmiddle : nodes[count]? = some middle) : Distance step start count middle where
  reached := hops_of_mem_pathsOf (take_mem_pathsOf hnodes hmiddle)
  least := by
    intro fewer hfewer
    have hrest := hops_of_mem_pathsOf (drop_mem_pathsOf hnodes hmiddle)
    have hle := hdistance.least (fewer + more) (hfewer.append hrest)
    omega

theorem Distance.exists_of_mem (hdistance : Distance step start count goal) {nodes : List α}
    (hnodes : nodes ∈ pathsOf step start count goal) (hmiddle : middle ∈ nodes) :
    ∃ fewer ≤ count, nodes[fewer]? = some middle ∧ Distance step start fewer middle := by
  obtain ⟨place, hplace⟩ := List.mem_iff_getElem?.mp hmiddle
  obtain ⟨hlt, -⟩ := List.getElem?_eq_some_iff.mp hplace
  have hlength := hnodes.2
  obtain ⟨more, rfl⟩ := Nat.exists_eq_add_of_le (by omega : place ≤ count)
  exact ⟨place, Nat.le_add_right place more, hplace, hdistance.of_mem_pathsOf hnodes hplace⟩

/-- A shortest path has a node in no other place than that of its distance. -/
theorem pathsOf_inter_mem (hmiddle : Distance step start count middle)
    (hdistance : Distance step start (count + more) goal) :
    pathsOf step start (count + more) goal ∩ {nodes | middle ∈ nodes} =
      pathsOf step start (count + more) goal ∩ {nodes | nodes[count]? = some middle} := by
  ext nodes
  refine and_congr_right fun hnodes => ⟨?_, List.mem_of_getElem?⟩
  intro hmem
  obtain ⟨fewer, -, hplace, hfewer⟩ := hdistance.exists_of_mem hnodes hmem
  rw [hmiddle.unique hfewer]
  exact hplace

end Paths

/-! Counting -/

section Counting

variable {α : Type} [DecidableEq α] {step : α → α → Prop} {start goal : α} {count more : Nat}
variable {nodes : Finset α} (hinside : ∀ before after, step before after → after ∈ nodes)

include hinside

omit [DecidableEq α] in
theorem IsPath.forall_mem {path : List α} (hpath : IsPath step start goal path)
    (hstart : start ∈ nodes) : ∀ node ∈ path, node ∈ nodes := by
  cases path with
  | nil => simp
  | cons first rest =>
      cases hpath.starts
      intro node hnode
      rcases List.mem_cons.mp hnode with rfl | hrest
      · exact hstart
      · exact hpath.steps.cons_induction (· ∈ nodes) rest (fun before after hstep _ =>
          hinside before after hstep) hstart node hrest

omit [DecidableEq α] in
theorem finite_pathsOf (hstart : start ∈ nodes) (count : Nat) (goal : α) :
    (pathsOf step start count goal).Finite := by
  refine ((List.finite_length_eq nodes (count + 1)).image (List.map Subtype.val)).subset ?_
  rintro path ⟨hpath, hlength⟩
  have hall := hpath.forall_mem hinside hstart
  refine ⟨path.attachWith _ hall, ?_, ?_⟩
  · simpa using hlength
  · simp

theorem ncard_pathsOf_add (hstart : start ∈ nodes) (count more : Nat) (goal : α) :
    (pathsOf step start (count + more) goal).ncard =
      ∑ middle ∈ nodes,
        (pathsOf step start count middle).ncard * (pathsOf step middle more goal).ncard := by
  have hfinite := finite_pathsOf hinside hstart (count + more) goal
  have hat : ∀ path ∈ pathsOf step start (count + more) goal, ∃ middle ∈ nodes,
      path[count]? = some middle := by
    intro path hpath
    obtain ⟨middle, hmiddle⟩ := exists_getElem?_of_mem hpath (Nat.le_add_right count more)
    exact ⟨middle, hpath.1.forall_mem hinside hstart middle (List.mem_of_getElem? hmiddle), hmiddle⟩
  rw [Set.ncard_eq_toFinset_card _ hfinite,
    Finset.card_eq_sum_card_fiberwise (f := fun path => path[count]?.getD start) (t := nodes)]
  · refine Finset.sum_congr rfl fun middle _ => ?_
    rw [← ncard_pathsOf_inter, ← Set.ncard_coe_finset]
    congr 1
    ext path
    simp only [Finset.coe_filter, Set.Finite.mem_toFinset, Set.mem_ofPred_eq, Set.mem_inter_iff]
    refine and_congr_right fun hpath => ?_
    obtain ⟨other, -, hother⟩ := hat path hpath
    simp [hother]
  · intro path hpath
    obtain ⟨middle, hmiddle, hplace⟩ := hat path (by simpa using hpath)
    simpa [hplace] using hmiddle

end Counting

end CodeGraph
