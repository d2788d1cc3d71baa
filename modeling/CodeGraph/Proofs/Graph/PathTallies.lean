import CodeGraph.Proofs.Graph.Accumulation
import CodeGraph.Proofs.Graph.Adjacency

namespace CodeGraph

/-! What a search from one node notes about the shortest paths, in whatever numbers.  The links
between its levels are those on shortest paths.  The farthest nodes are taken back first, so that
what depends on a node is complete when it is added to the scores. -/

namespace Adjacency

/-- All levels of a search, its start the first of them. -/
def search (graph : Adjacency) (start : Nat) : List (List Nat) :=
  [start] :: reach graph.successors graph.size start

def searchLinks (graph : Adjacency) (start : Nat) : List (Nat × Nat) :=
  levelLinks graph.successors (graph.search start)

section Search

variable {graph : Adjacency} {step : Nat → Nat → Prop} (hgraph : graph.Follows step)
  {start : Nat}

include hgraph

theorem nodup_linksBetween {near : List Nat} (hnear : near.Nodup) (far : List Nat) :
    (linksBetween graph.successors near far).Nodup := by
  rw [linksBetween, List.nodup_flatMap]
  constructor
  · intro node _
    exact ((hgraph.nodup_successors node).filter _).map fun _ _ hsame => (Prod.mk.inj hsame).2
  · refine hnear.imp ?_
    intro a b hne link hfirst hsecond
    obtain ⟨_, -, rfl⟩ := List.mem_map.mp hfirst
    obtain ⟨_, -, hsame⟩ := List.mem_map.mp hsecond
    exact hne (Prod.mk.inj hsame).1.symm

theorem listsDistances_search (start : Nat) :
    ListsDistances step start 0 (graph.size + 1) (graph.search start) :=
  .cons HasReached.refl.mem_frontier (List.nodup_singleton start) (List.cons_ne_nil _ _)
    (listsDistances_reach hgraph.mem_successors graph.size start)

theorem distance_lt_of_follows (hstart : start < graph.size) {count node : Nat}
    (hdistance : Distance step start count node) : count < graph.size :=
  distance_lt_size hgraph.mem_successors (fun _ _ hstep => (hgraph.lt_size _ _ hstep).2) hstart
    hdistance

theorem mem_flatten_search (hstart : start < graph.size) {node : Nat} :
    node ∈ (graph.search start).flatten ↔ Reaches step start node := by
  rw [(listsDistances_search hgraph start).mem_flatten_iff]
  constructor
  · rintro ⟨place, -, hdistance⟩
    exact ⟨_, hdistance.reached⟩
  · intro hreaches
    have hdistance := hreaches.distance
    have hlt := distance_lt_of_follows hgraph hstart hdistance
    exact ⟨_, Nat.lt_succ_of_lt hlt, (Nat.zero_add _).symm ▸ hdistance⟩

/-- The links of a search are the steps that lead one step farther from its start. -/
theorem mem_searchLinks (hstart : start < graph.size) {link : Nat × Nat} :
    link ∈ graph.searchLinks start ↔
      ∃ count, Distance step start count link.1 ∧ Distance step start (count + 1) link.2 ∧
        step link.1 link.2 := by
  have hlists := listsDistances_search hgraph start
  rw [searchLinks, levelLinks_eq_flatMap, List.mem_flatMap]
  constructor
  · rintro ⟨⟨near, far⟩, hpair, hlink⟩
    obtain ⟨hnear, hfar, hstep⟩ := mem_linksBetween.mp hlink
    obtain ⟨place, hplace⟩ := List.mem_iff_getElem?.mp hpair
    rw [List.getElem?_zip_eq_some, List.getElem?_tail] at hplace
    have hfirst := (hlists.mem_iff _ _ hplace.1 _).mp hnear
    have hsecond := (hlists.mem_iff _ _ hplace.2 _).mp hfar
    rw [Nat.zero_add] at hfirst hsecond
    exact ⟨place, hfirst, hsecond, (hgraph.mem_successors _ _).mp hstep⟩
  · rintro ⟨count, hfirst, hsecond, hstep⟩
    have hlt := distance_lt_of_follows hgraph hstart hsecond
    rw [← Nat.zero_add count] at hfirst
    rw [← Nat.zero_add (count + 1)] at hsecond
    obtain ⟨near, hplace, hnear⟩ := hlists.exists_level_iff.mpr ⟨by omega, hfirst⟩
    obtain ⟨far, hnext, hfar⟩ := hlists.exists_level_iff.mpr ⟨by omega, hsecond⟩
    rw [← List.getElem?_tail] at hnext
    refine ⟨(near, far), List.mem_of_getElem? (List.getElem?_zip_eq_some.mpr ⟨hplace, hnext⟩), ?_⟩
    exact mem_linksBetween.mpr ⟨hnear, hfar, (hgraph.mem_successors _ _).mpr hstep⟩

theorem pairwise_searchLinks (start : Nat) :
    (graph.searchLinks start).Pairwise fun earlier later => earlier ≠ later ∧
      ∀ m n, Distance step start m earlier.2 → Distance step start n later.2 → m ≤ n := by
  have hlists := listsDistances_search hgraph start
  have hfar : ((graph.search start).zip (graph.search start).tail).Pairwise fun earlier later =>
      ∃ m n, m < n ∧ (∀ a ∈ earlier.2, Distance step start m a) ∧
        ∀ b ∈ later.2, Distance step start n b := by
    have hlength : (graph.search start).tail.length ≤ (graph.search start).length := by simp
    have htail := hlists.pairwise_levels.sublist (List.tail_sublist _)
    rw [← List.map_snd_zip hlength] at htail
    exact List.pairwise_map.mp htail
  rw [searchLinks, levelLinks_eq_flatMap, List.pairwise_flatMap]
  constructor
  · rintro ⟨near, far⟩ hpair
    obtain ⟨place, hplace⟩ := List.mem_iff_getElem?.mp hpair
    rw [List.getElem?_zip_eq_some, List.getElem?_tail] at hplace
    have hnear := hlists.nodup near (List.mem_of_getElem? hplace.1)
    have hnodup := nodup_linksBetween hgraph hnear far
    refine hnodup.imp_of_mem ?_
    intro earlier later hearlier hlater hne
    refine ⟨hne, ?_⟩
    intro m n hm hn
    have hfirst := (hlists.mem_iff _ _ hplace.2 _).mp (mem_linksBetween.mp hearlier).2.1
    have hsecond := (hlists.mem_iff _ _ hplace.2 _).mp (mem_linksBetween.mp hlater).2.1
    exact ((hm.unique hfirst).trans (hsecond.unique hn)).le
  · refine hfar.imp ?_
    rintro ⟨near, far⟩ ⟨near', far'⟩ ⟨i, j, hless, hi, hj⟩ earlier hearlier later hlater
    have hfirst := hi _ (mem_linksBetween.mp hearlier).2.1
    have hsecond := hj _ (mem_linksBetween.mp hlater).2.1
    constructor
    · rintro rfl
      exact Nat.ne_of_lt hless (hfirst.unique hsecond)
    · intro m n hm hn
      rw [hm.unique hfirst, hn.unique hsecond]
      exact hless.le

theorem nodup_searchLinks (start : Nat) :
    (graph.searchLinks start).Nodup :=
  (pairwise_searchLinks hgraph start).imp fun hpair => hpair.1

variable (hstart : start < graph.size)

include hstart

theorem ne_of_mem_searchLinks {earlier later : Nat × Nat}
    (hearlier : earlier ∈ graph.searchLinks start) (hlater : later ∈ graph.searchLinks start)
    (hle : ∀ m n, Distance step start m earlier.2 → Distance step start n later.2 → m ≤ n) :
    later.2 ≠ earlier.1 := by
  obtain ⟨m, hfirst, hnext, -⟩ := (mem_searchLinks hgraph hstart).mp hearlier
  obtain ⟨n, -, hsecond, -⟩ := (mem_searchLinks hgraph hstart).mp hlater
  intro hsame
  rw [hsame] at hsecond
  have hless := hle _ _ hnext (hsame.symm ▸ hsecond)
  have hequal := hfirst.unique hsecond
  omega

end Search

/-! The notes of a search -/

section Tallies

variable {α : Type} [Add α] [NatCast α]

/-- Along each link the paths to its first end are added to those to its second end. -/
def countPaths (size start : Nat) (links : List (Nat × Nat)) : Array α :=
  links.foldl (fun counts link => addAt counts link.2 (counts.getD link.1 ((0 : Nat) : α)))
    ((Array.replicate size ((0 : Nat) : α)).setIfInBounds start ((1 : Nat) : α))

def listFronts (size : Nat) (links : List (Nat × Nat)) : Array (List Nat) :=
  links.foldl (fun fronts link => fronts.modify link.2 (· ++ [link.1])) (Array.replicate size [])

def tallyOf (size start : Nat) (course : Course) : PathTally α :=
  { stack := course.visited.reverse
    fronts := listFronts size course.steps
    counts := countPaths size start course.steps }

theorem tallyOf_note (size start : Nat) (course : Course) (event : SearchEvent) :
    (tallyOf size start (course.note event) : PathTally α) =
      (tallyOf size start course).note event := by
  cases event with
  | visits node => simp [tallyOf, Course.note, PathTally.note]
  | meets node distance => rfl
  | steps node target =>
      simp [tallyOf, Course.note, PathTally.note, listFronts, countPaths]

omit [Add α] [NatCast α] in
theorem getD_listFronts {size : Nat} {links : List (Nat × Nat)}
    (hlinks : ∀ link ∈ links, link.2 < size) (node : Nat) :
    (listFronts size links).getD node [] =
      (links.filter fun link => link.2 == node).map Prod.fst := by
  have hfold : ∀ (links : List (Nat × Nat)) (fronts : Array (List Nat)),
      (∀ link ∈ links, link.2 < fronts.size) →
      (links.foldl (fun fronts link => fronts.modify link.2 (· ++ [link.1])) fronts).getD node [] =
        fronts.getD node [] ++ (links.filter fun link => link.2 == node).map Prod.fst := by
    intro links
    induction links with
    | nil => simp
    | cons link rest ih =>
        intro fronts hlinks
        rw [List.forall_mem_cons] at hlinks
        rw [List.foldl_cons, ih _ (by simpa using hlinks.2), getD_modify_append hlinks.1,
          List.filter_cons]
        cases link.2 == node <;> simp
  rw [listFronts, hfold links _ (by simpa using hlinks), getD_replicate_nil, List.nil_append]

variable {graph : Adjacency} {step : Nat → Nat → Prop} (hgraph : graph.Follows step)
  {start : Nat} (hstart : start < graph.size)

include hgraph hstart

theorem pathTally_eq :
    (graph.pathTally start : PathTally α) =
      { stack := (graph.search start).flatten.reverse
        fronts := listFronts graph.size (graph.searchLinks start)
        counts := countPaths graph.size start (graph.searchLinks start) } := by
  have hinside : ∀ node, graph.successors node ⊆ List.range graph.size := by
    intro node after hafter
    rw [hgraph.mem_successors] at hafter
    exact List.mem_range.mpr (hgraph.lt_size node after hafter).2
  refine (notesOfSearch_eq (tallyOf_note graph.size start) _ _ _).trans ?_
  rw [notesOfSearch_course hinside hstart]
  rfl

theorem getD_fronts_pathTally (node : Nat) :
    (graph.pathTally start : PathTally α).fronts.getD node [] =
      ((graph.searchLinks start).filter fun link => link.2 == node).map Prod.fst := by
  rw [pathTally_eq hgraph hstart]
  apply getD_listFronts
  intro link hlink
  obtain ⟨_, -, -, hstep⟩ := (mem_searchLinks hgraph hstart).mp hlink
  exact (hgraph.lt_size _ _ hstep).2

/-- A node in front of another one is nearer to the start, and taken later. -/
theorem pairwise_stack :
    (graph.pathTally start : PathTally α).stack.Pairwise fun earlier later =>
      earlier ∉ (graph.pathTally start : PathTally α).fronts.getD later [] := by
  have hlists := listsDistances_search hgraph start
  have hstack : (graph.pathTally start : PathTally α).stack =
      (graph.search start).flatten.reverse := by
    rw [pathTally_eq hgraph hstart]
  rw [hstack, List.pairwise_reverse]
  refine hlists.pairwise_flatten.imp ?_
  intro later earlier hle hfront
  rw [getD_fronts_pathTally hgraph hstart] at hfront
  obtain ⟨link, hlink, rfl⟩ := List.mem_map.mp hfront
  obtain ⟨hmem, hsame⟩ := List.mem_filter.mp hlink
  obtain rfl : link.2 = later := beq_iff_eq.mp hsame
  obtain ⟨count, hfirst, hsecond, -⟩ := (mem_searchLinks hgraph hstart).mp hmem
  have hless := hle _ _ hsecond hfirst
  omega

end Tallies

/-! Taking back -/

section Dependencies

variable {α : Type} [Add α] [Mul α] [Div α] [NatCast α]

/-- What depends on each node when all nodes of a search have been taken back. -/
def dependencies (graph : Adjacency) (start : Nat) : Array α :=
  (graph.addDependencies (Array.replicate graph.size ((0 : Nat) : α)) start).shares

/-- The nodes that a search leads to, in the order in which they add to the scores. -/
def searchedNodes (graph : Adjacency) (start : Nat) : List Nat :=
  (graph.search start).flatten.reverse.filter fun node => node != start

theorem shares_foldl_settle (start : Nat) (tally : PathTally α) (nodes : List Nat)
    (state : Dependencies α) :
    (nodes.foldl (settle start tally) state).shares =
      nodes.foldl (passBack tally) state.shares :=
  (List.foldl_hom Dependencies.shares fun _ _ => rfl).symm

/-- What depends on a node is not read off the scores. -/
theorem shares_addDependencies (graph : Adjacency) (scores : Array α) (start : Nat) :
    (graph.addDependencies scores start).shares = graph.dependencies start := by
  rw [dependencies, addDependencies, addDependencies, shares_foldl_settle, shares_foldl_settle]

theorem dependencies_eq_foldl_passBack (graph : Adjacency) (start : Nat) :
    (graph.dependencies start : Array α) =
      (graph.pathTally start : PathTally α).stack.foldl (passBack (graph.pathTally start))
        (Array.replicate graph.size ((0 : Nat) : α)) :=
  shares_foldl_settle ..

theorem getD_passBack_of_not_mem {tally : PathTally α} {node other : Nat}
    (hother : other ∉ tally.fronts.getD node []) (shares : Array α) :
    (passBack tally shares node).getD other ((0 : Nat) : α) =
      shares.getD other ((0 : Nat) : α) := by
  rw [passBack]
  generalize tally.fronts.getD node [] = fronts at hother ⊢
  induction fronts generalizing shares with
  | nil => rfl
  | cons front rest ih =>
      rw [List.mem_cons, not_or] at hother
      rw [List.foldl_cons, ih _ hother.2, getD_addAt_of_ne (Ne.symm hother.1)]

theorem getD_foldl_passBack_of_not_mem {tally : PathTally α} {nodes : List Nat} {other : Nat}
    (hother : ∀ node ∈ nodes, other ∉ tally.fronts.getD node []) (shares : Array α) :
    (nodes.foldl (passBack tally) shares).getD other ((0 : Nat) : α) =
      shares.getD other ((0 : Nat) : α) := by
  induction nodes generalizing shares with
  | nil => rfl
  | cons node rest ih =>
      rw [List.forall_mem_cons] at hother
      rw [List.foldl_cons, ih hother.2, getD_passBack_of_not_mem hother.1]

/-- If no node is in front of one that is taken later, then each node adds all that depends on
it. -/
theorem scores_foldl_settle {start : Nat} {tally : PathTally α} {nodes : List Nat}
    (hordered : nodes.Pairwise fun earlier later => earlier ∉ tally.fronts.getD later [])
    (state : Dependencies α) :
    (nodes.foldl (settle start tally) state).scores =
      (nodes.filter fun node => node != start).foldl
        (fun scores node => addAt scores node
          ((nodes.foldl (passBack tally) state.shares).getD node ((0 : Nat) : α)))
        state.scores := by
  induction nodes generalizing state with
  | nil => rfl
  | cons node rest ih =>
      rw [List.pairwise_cons] at hordered
      rw [List.foldl_cons, ih hordered.2, List.foldl_cons, List.filter_cons, settle]
      split
      · rw [List.foldl_cons, getD_foldl_passBack_of_not_mem hordered.1]
      · rfl

variable {graph : Adjacency} {step : Nat → Nat → Prop} (hgraph : graph.Follows step)
  {start : Nat} (hstart : start < graph.size)

include hgraph hstart

theorem scores_addDependencies (scores : Array α) :
    (graph.addDependencies scores start).scores =
      (graph.searchedNodes start).foldl
        (fun scores node => addAt scores node
          ((graph.dependencies start : Array α).getD node ((0 : Nat) : α)))
        scores := by
  rw [addDependencies, scores_foldl_settle (pairwise_stack hgraph hstart),
    dependencies_eq_foldl_passBack, searchedNodes, pathTally_eq hgraph hstart]

end Dependencies

end Adjacency

end CodeGraph
