import CodeGraph.Proofs.Graph.Traversals
import Mathlib.Data.List.Nodup

namespace CodeGraph

/-! The path that a search finds is one of the shortest, and it finds one whenever there is one of
few enough hops. -/

section Routes

variable {α : Type} {next : α → List α} {start goal : α}

theorem Route.refl (next : α → List α) (start : α) : Route next start start [start] where
  starts := rfl
  stops := rfl
  steps := .singleton start

theorem Route.exists_cons {path : List α} (hroute : Route next start goal path) :
    ∃ rest, path = start :: rest := by
  cases path with
  | nil => cases hroute.starts
  | cons first rest => exact ⟨rest, by rw [Option.some.inj hroute.starts]⟩

theorem Route.length_pos {path : List α} (hroute : Route next start goal path) :
    0 < path.length := by
  obtain ⟨rest, rfl⟩ := hroute.exists_cons
  exact Nat.succ_pos _

/-- A way round can be left out. -/
theorem Route.shortcut {node : α} {before between after : List α}
    (hroute : Route next start goal (before ++ node :: (between ++ node :: after))) :
    Route next start goal (before ++ node :: after) where
  starts := by
    have hstarts := hroute.starts
    cases before with
    | nil => exact hstarts
    | cons first rest => exact hstarts
  stops := by
    have hstops := hroute.stops
    simpa [List.getLast?_append, List.getLast?_cons] using hstops
  steps := by
    have hsteps := hroute.steps
    rw [List.isChain_split] at hsteps ⊢
    obtain ⟨hbefore, hbetween⟩ := hsteps
    rw [← List.cons_append, List.isChain_split] at hbetween
    exact ⟨hbefore, hbetween.2⟩

theorem Route.nodup_of_shortest {path : List α} (hroute : Route next start goal path)
    (hshortest : ∀ other, Route next start goal other → path.length ≤ other.length) :
    path.Nodup := by
  rw [List.nodup_iff_sublist]
  intro node hrepeats
  obtain ⟨front, back, rfl, hfront, hback⟩ := List.cons_sublist_iff.mp hrepeats
  obtain ⟨before, between, rfl⟩ := List.append_of_mem hfront
  obtain ⟨more, after, rfl⟩ := List.append_of_mem (List.singleton_sublist.mp hback)
  have hround : before ++ node :: between ++ (more ++ node :: after) =
      before ++ node :: (between ++ more ++ node :: after) := by
    simp
  rw [hround] at hroute hshortest
  have hless := hshortest _ hroute.shortcut
  simp only [List.length_append, List.length_cons] at hless
  omega

end Routes

section Levels

variable {α : Type} [BEq α] [LawfulBEq α] {next : α → List α}

/-- All that one step leads to from nodes that are seen is seen, the frontier apart. -/
def Closed (next : α → List α) (seen frontier : List α) : Prop :=
  ∀ node ∈ seen, node ∈ frontier ∨ next node ⊆ seen

theorem Closed.scan {seen frontier : List α} (hclosed : Closed next seen frontier) :
    Closed next (seen ++ scan next seen frontier) (scan next seen frontier) := by
  intro node hnode
  rcases List.mem_append.mp hnode with hseen | hfound
  · right
    intro after hafter
    rw [List.mem_append, mem_scan]
    by_cases hknown : after ∈ seen
    · exact .inl hknown
    · rcases hclosed node hseen with hfrontier | hinside
      · exact .inr ⟨⟨node, hfrontier, hafter⟩, hknown⟩
      · exact .inl (hinside hafter)
  · exact .inl hfound

/-- A route out of what is seen passes through the frontier, and from there it takes at least one
hop for each level. -/
theorem exists_level_of_route {goal node : α} {rest seen frontier : List α} {depth : Nat}
    (hroute : Route next node goal (node :: rest)) (hclosed : Closed next seen frontier)
    (hnode : node ∈ seen) (hgoal : goal ∉ seen) (hshort : rest.length ≤ depth) :
    ∃ place level, (scannedLevels next depth seen frontier)[place]? = some level ∧
      goal ∈ level ∧ place < rest.length := by
  induction rest generalizing node seen frontier depth with
  | nil =>
      have hsame : node = goal := Option.some.inj hroute.stops
      exact absurd (hsame ▸ hnode) hgoal
  | cons after rest ih =>
      have hstep : after ∈ next node := (List.isChain_cons_cons.mp hroute.steps).1
      have hlater : Route next after goal (after :: rest) :=
        { starts := rfl
          stops := by simpa using hroute.stops
          steps := (List.isChain_cons_cons.mp hroute.steps).2 }
      rw [List.length_cons] at hshort
      by_cases hseen : after ∈ seen
      · obtain ⟨place, level, hlevel, hmem, hplace⟩ :=
          ih hlater hclosed hseen hgoal (Nat.le_of_succ_le hshort)
        exact ⟨place, level, hlevel, hmem, Nat.lt_succ_of_lt hplace⟩
      · have hfrontier : node ∈ frontier := by
          rcases hclosed node hnode with hfrontier | hinside
          · exact hfrontier
          · exact absurd (hinside hstep) hseen
        have hfound : after ∈ scan next seen frontier :=
          mem_scan.mpr ⟨⟨node, hfrontier, hstep⟩, hseen⟩
        obtain ⟨hops, rfl⟩ : ∃ hops, depth = hops + 1 := ⟨depth - 1, by omega⟩
        rw [scannedLevels]
        split
        · next hnone =>
            rw [hnone] at hfound
            cases hfound
        · by_cases hnow : goal ∈ scan next seen frontier
          · exact ⟨0, _, rfl, hnow, Nat.succ_pos _⟩
          · have hnew : goal ∉ seen ++ scan next seen frontier := by
              rw [List.mem_append, not_or]
              exact ⟨hgoal, hnow⟩
            obtain ⟨place, level, hlevel, hmem, hplace⟩ :=
              ih hlater hclosed.scan (List.mem_append_right _ hfound) hnew
                (Nat.le_of_succ_le_succ hshort)
            exact ⟨place + 1, level, hlevel, hmem, Nat.succ_lt_succ hplace⟩

omit [LawfulBEq α] in
theorem length_scannedLevels_le (depth : Nat) (seen frontier : List α) :
    (scannedLevels next depth seen frontier).length ≤ depth := by
  induction depth generalizing seen frontier with
  | zero => exact Nat.le_refl 0
  | succ depth ih =>
      rw [scannedLevels]
      split
      · exact Nat.zero_le _
      · exact Nat.succ_le_succ (ih _ _)

variable {nodes : List α} (hnext : ∀ node, next node ⊆ nodes) {start goal : α} {maxHops : Nat}

include hnext

theorem length_shortestPath?_le {path : List α}
    (hfound : shortestPath? next nodes.length maxHops start goal = some path) :
    path.length ≤ maxHops + 1 := by
  by_cases hsame : start = goal
  · rw [shortestPath?, if_pos (by simpa using hsame)] at hfound
    cases hfound
    exact Nat.le_add_left 1 maxHops
  · have hlength := map_length_shortestPath? hnext hsame maxHops
    rw [hfound, Option.map_some, eq_comm, Option.map_eq_some_iff] at hlength
    obtain ⟨place, hplace, hhops⟩ := hlength
    have hlevels : (scannedLevels next maxHops [start] [start]).length ≤ maxHops :=
      length_scannedLevels_le maxHops [start] [start]
    have hless : place < (scannedLevels next maxHops [start] [start]).length :=
      (List.findIdx?_eq_some_iff_getElem.mp hplace).1
    omega

/-- A route of few enough hops makes the search find one that is no longer. -/
theorem exists_shortestPath?_of_route {other : List α} (hother : Route next start goal other)
    (hshort : other.length ≤ maxHops + 1) :
    ∃ path, shortestPath? next nodes.length maxHops start goal = some path ∧
      path.length ≤ other.length := by
  by_cases hsame : start = goal
  · exact ⟨[start], if_pos (by simpa using hsame), hother.length_pos⟩
  · obtain ⟨rest, rfl⟩ := hother.exists_cons
    rw [List.length_cons] at hshort ⊢
    have hclosed : Closed next [start] [start] := fun _ hmem => .inl hmem
    obtain ⟨place, level, hlevel, hmem, hplace⟩ :=
      exists_level_of_route hother hclosed List.mem_cons_self
        (by simpa using fun heq => hsame heq.symm) (Nat.le_of_succ_le_succ hshort)
    have hlength := map_length_shortestPath? hnext hsame maxHops
    rw [findIdx?_scannedLevels_eq_some_iff.mpr ⟨level, hlevel, hmem⟩, Option.map_some,
      Option.map_eq_some_iff] at hlength
    obtain ⟨path, hfound, hhops⟩ := hlength
    exact ⟨path, hfound, by omega⟩

theorem length_shortestPath?_le_of_route {path other : List α}
    (hfound : shortestPath? next nodes.length maxHops start goal = some path)
    (hother : Route next start goal other) : path.length ≤ other.length := by
  by_cases hshort : other.length ≤ maxHops + 1
  · obtain ⟨same, hsame, hless⟩ := exists_shortestPath?_of_route hnext hother hshort
    rw [hfound] at hsame
    cases hsame
    exact hless
  · have hbound := length_shortestPath?_le hnext hfound
    omega

end Levels

/-! Paths along the edges of a store -/

theorem Relation.mem_filterMap_ofName? {relation : Relation} {types : List String} :
    relation ∈ types.filterMap ofName? ↔ relation.name ∈ types := by
  rw [List.mem_filterMap]
  constructor
  · rintro ⟨name, hname, hfound⟩
    have hsame : relation.name = name := by simpa using List.find?_some hfound
    exact hsame ▸ hname
  · intro hname
    exact ⟨relation.name, hname, ofName?_name relation⟩

/-- Without a list every relation is allowed, and a list allows those that it names. -/
def Allows (types? : Option (List String)) (relation : Relation) : Prop :=
  ∀ types, types? = some types → relation.name ∈ types

theorem not_allows_of_unknown {types : List String}
    (hunknown : ∀ name ∈ types, Relation.ofName? name = none) (relation : Relation) :
    ¬Allows (some types) relation := by
  intro hallows
  have hnone := hunknown relation.name (hallows types rfl)
  rw [Relation.ofName?_name] at hnone
  cases hnone

namespace Store

/-- The nodes on a way from one node to another along edges of allowed relations. -/
structure EdgePath (store : Store) (types? : Option (List String)) (source target : String)
    (path : List String) : Prop where
  starts : path.head? = some source
  stops : path.getLast? = some target
  joined : path.IsChain fun before after =>
    ∃ edge ∈ store.edges,
      edge.source = before ∧ edge.target = after ∧ Allows types? edge.relation

theorem mem_successors {store : Store} {types? : Option (List String)} {before after : String} :
    after ∈ store.successors types? before ↔
      ∃ edge ∈ store.edges,
        edge.source = before ∧ edge.target = after ∧ Allows types? edge.relation := by
  cases types? with
  | none => simp [successors, edgesFrom, Allows, and_assoc]
  | some types =>
      simp only [successors, edgesFrom, Allows, List.mem_map, List.mem_filter, beq_iff_eq,
        List.contains_iff_mem, Relation.mem_filterMap_ofName?, Option.some.injEq,
        forall_eq', and_assoc]
      constructor
      · rintro ⟨edge, hedge, hsource, hallowed, htarget⟩
        exact ⟨edge, hedge, hsource, htarget, hallowed⟩
      · rintro ⟨edge, hedge, hsource, htarget, hallowed⟩
        exact ⟨edge, hedge, hsource, hallowed, htarget⟩

theorem edgePath_iff_route {store : Store} {types? : Option (List String)}
    {source target : String} {path : List String} :
    store.EdgePath types? source target path ↔
      Route (store.successors types?) source target path := by
  have hsteps : (path.IsChain fun before after => after ∈ store.successors types? before) ↔
      path.IsChain fun before after => ∃ edge ∈ store.edges,
        edge.source = before ∧ edge.target = after ∧ Allows types? edge.relation := by
    simp only [mem_successors]
  exact ⟨fun hpath => ⟨hpath.starts, hpath.stops, hsteps.mpr hpath.joined⟩,
    fun hroute => ⟨hroute.starts, hroute.stops, hsteps.mp hroute.steps⟩⟩

theorem successors_subset (store : Store) (types? : Option (List String)) (id : String) :
    store.successors types? id ⊆ store.edges.map Edge.target := by
  intro after hafter
  obtain ⟨edge, hedge, -, rfl, -⟩ := mem_successors.mp hafter
  exact List.mem_map_of_mem hedge

theorem findPath?_eq_some_iff {store : Store} {source target : String} {maxHops : Nat}
    {types? : Option (List String)} {path : List String} :
    store.findPath? source target maxHops types? = some path ↔
      store.has source = true ∧ store.has target = true ∧
        shortestPath? (store.successors types?) (store.edges.map Edge.target).length maxHops source
          target = some path := by
  rw [findPath?, List.length_map]
  split
  · next hknown =>
      rw [Bool.and_eq_true] at hknown
      simp [hknown]
  · next hunknown =>
      rw [Bool.and_eq_true, not_and] at hunknown
      simp only [reduceCtorEq, false_iff]
      rintro ⟨hsource, htarget, -⟩
      exact hunknown hsource htarget

theorem findPath?_self {store : Store} {id : String} (hknown : store.has id = true) (maxHops : Nat)
    (types? : Option (List String)) : store.findPath? id id maxHops types? = some [id] :=
  findPath?_eq_some_iff.mpr ⟨hknown, hknown, if_pos (beq_self_eq_true id)⟩

theorem edgePath_of_findPath? {store : Store} {source target : String} {maxHops : Nat}
    {types? : Option (List String)} {path : List String}
    (hfound : store.findPath? source target maxHops types? = some path) :
    store.EdgePath types? source target path := by
  rw [edgePath_iff_route]
  by_cases hsame : source = target
  · subst hsame
    rw [findPath?_self (findPath?_eq_some_iff.mp hfound).1] at hfound
    cases hfound
    exact .refl _ _
  · exact route_of_findPath? hsame hfound

theorem EdgePath.eq_of_not_allows {store : Store} {types? : Option (List String)}
    {source target : String} {path : List String} (hpath : store.EdgePath types? source target path)
    (hnone : ∀ relation, ¬Allows types? relation) : source = target := by
  obtain ⟨hstarts, hstops, hjoined⟩ := hpath
  cases path with
  | nil => cases hstarts
  | cons first rest =>
      cases rest with
      | nil => exact Option.some.inj (hstarts.symm.trans hstops)
      | cons second rest =>
          obtain ⟨edge, -, -, -, hallows⟩ := (List.isChain_cons_cons.mp hjoined).1
          exact absurd hallows (hnone edge.relation)

theorem findPath?_shortest (store : Store) (source target : String) (maxHops : Nat)
    (types? : Option (List String)) :
    let found := store.findPath? source target maxHops types?
    (source = target → store.has source = true → found = some [source]) ∧
    ((∃ path, found = some path) ↔
      store.has source = true ∧ store.has target = true ∧
        ∃ path, store.EdgePath types? source target path ∧ path.length ≤ maxHops + 1) ∧
    (∀ path, found = some path →
      store.EdgePath types? source target path ∧ path.Nodup ∧ path.length ≤ maxHops + 1 ∧
        ∀ other, store.EdgePath types? source target other → path.length ≤ other.length) ∧
    (∀ types, types? = some types → (∀ name ∈ types, Relation.ofName? name = none) →
      (∀ relation, ¬Allows types? relation) ∧ (source ≠ target → found = none)) := by
  intro found
  have hnext := store.successors_subset types?
  refine ⟨?_, ⟨?_, ?_⟩, ?_, ?_⟩
  · rintro rfl hknown
    exact findPath?_self hknown maxHops types?
  · rintro ⟨path, hfound⟩
    obtain ⟨hsource, htarget, hshortest⟩ := findPath?_eq_some_iff.mp hfound
    exact ⟨hsource, htarget, path, edgePath_of_findPath? hfound,
      length_shortestPath?_le hnext hshortest⟩
  · rintro ⟨hsource, htarget, other, hother, hshort⟩
    obtain ⟨path, hshortest, -⟩ :=
      exists_shortestPath?_of_route hnext (edgePath_iff_route.mp hother) hshort
    exact ⟨path, findPath?_eq_some_iff.mpr ⟨hsource, htarget, hshortest⟩⟩
  · intro path hfound
    have hshortest := (findPath?_eq_some_iff.mp hfound).2.2
    have hpath := edgePath_of_findPath? hfound
    have hleast : ∀ other, Route (store.successors types?) source target other →
        path.length ≤ other.length :=
      fun _ hother => length_shortestPath?_le_of_route hnext hshortest hother
    exact ⟨hpath, (edgePath_iff_route.mp hpath).nodup_of_shortest hleast,
      length_shortestPath?_le hnext hshortest,
      fun other hother => hleast other (edgePath_iff_route.mp hother)⟩
  · rintro types rfl hunknown
    have hnone := not_allows_of_unknown hunknown
    refine ⟨hnone, fun hne => ?_⟩
    rw [Option.eq_none_iff_forall_ne_some]
    intro path hfound
    exact hne ((edgePath_of_findPath? hfound).eq_of_not_allows hnone)

theorem findPath?_shortest_on_roundTrip :
    (ofHistory roundTrip).findPath? "a" "c" 5 (some ["calls"]) = some ["a", "b", "c"] ∧
      (ofHistory roundTrip).findPath? "a" "c" 5 none = some ["a", "c"] ∧
      ∀ other, (ofHistory roundTrip).EdgePath (some ["calls"]) "a" "c" other →
        3 ≤ other.length := by
  have hcalls : (ofHistory roundTrip).findPath? "a" "c" 5 (some ["calls"]) =
      some ["a", "b", "c"] := by
    decide +kernel
  exact ⟨hcalls, by decide +kernel,
    ((findPath?_shortest (ofHistory roundTrip) "a" "c" 5 (some ["calls"])).2.2.1 _ hcalls).2.2.2⟩

end Store

end CodeGraph
