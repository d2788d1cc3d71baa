import CodeGraph.Graph.Query
import CodeGraph.Proofs.Graph.History
import CodeGraph.Proofs.Graph.PathSearch

namespace CodeGraph

/-! Neighbours, callers, callees and paths along calls. -/

theorem Following.ofNames_name (relation : Relation) :
    ofNames [relation.name] = ⟨[relation], []⟩ := by
  simp [ofNames, Relation.ofName?_name]

theorem Relation.ofName?_inverseName (relation : Relation) :
    ofName? relation.inverseName = none := by
  cases relation <;> decide

theorem Following.ofNames_inverseName (relation : Relation) :
    ofNames [relation.inverseName] = ⟨[], [relation]⟩ := by
  simp [ofNames, Relation.ofName?_inverseName, Relation.ofInverseName?_inverseName]

namespace Store

theorem map_fst_stepsFrom_forward (store : Store) (relations : List Relation) (id : String) :
    (store.stepsFrom ⟨relations, []⟩ id).map Prod.fst =
      ((store.edgesFrom id).filter fun edge => relations.contains edge.relation).map
        Edge.target := by
  simp only [stepsFrom, edgesFrom]
  induction store.edges with
  | nil => rfl
  | cons edge rest ih =>
      rw [List.flatMap_cons, List.map_append, ih]
      by_cases hsource : edge.source = id <;> by_cases hfollowed : edge.relation ∈ relations <;>
        simp [hsource, hfollowed]

theorem map_fst_stepsFrom_backward (store : Store) (relations : List Relation) (id : String) :
    (store.stepsFrom ⟨[], relations⟩ id).map Prod.fst =
      ((store.edgesTo id).filter fun edge => relations.contains edge.relation).map
        Edge.source := by
  simp only [stepsFrom, edgesTo]
  induction store.edges with
  | nil => rfl
  | cons edge rest ih =>
      rw [List.flatMap_cons, List.map_append, ih]
      by_cases htarget : edge.target = id <;> by_cases hfollowed : edge.relation ∈ relations <;>
        simp [htarget, hfollowed]

/-- Without weights the steps behind a frontier are those behind its nodes. -/
theorem frontierSteps_none (store : Store) (following : Following) :
    store.frontierSteps following none =
      fun frontier => frontier.flatMap fun id => (store.stepsFrom following id).map Prod.fst := by
  funext frontier
  rw [frontierSteps, List.map_flatMap]

theorem neighbors_none (store : Store) (id : String) (relations : List String) (depth : Nat) :
    store.neighbors id relations depth none =
      if store.has id then
        (scannedLevels (fun id => (store.stepsFrom (.ofNames relations) id).map Prod.fst)
          depth [id] [id]).flatten
      else [] := by
  rw [neighbors, levels, frontierSteps_none, scannedLevels_eq_levelsUpTo]

theorem map_fst_stepsFrom_calls (store : Store) :
    (fun id => (store.stepsFrom (.ofNames ["calls"]) id).map Prod.fst) = store.calledBy := by
  funext id
  rw [← Relation.name, Following.ofNames_name, map_fst_stepsFrom_forward, calledBy]
  simp only [List.contains_cons, List.contains_nil, Bool.or_false]

theorem map_fst_stepsFrom_called_by (store : Store) :
    (fun id => (store.stepsFrom (.ofNames ["called_by"]) id).map Prod.fst) = store.calling := by
  funext id
  rw [← Relation.inverseName, Following.ofNames_inverseName, map_fst_stepsFrom_backward, calling]
  simp only [List.contains_cons, List.contains_nil, Bool.or_false]

theorem successors_calls (store : Store) : store.successors (some ["calls"]) = store.calledBy := by
  funext id
  have hnames : ["calls"].filterMap Relation.ofName? = [.calls] := by decide
  simp only [successors, calledBy, hnames, List.contains_cons, List.contains_nil, Bool.or_false]

theorem calledBy_subset (store : Store) (id : String) :
    store.calledBy id ⊆ store.edges.map Edge.target := by
  intro callee hmem
  obtain ⟨edge, hedge, rfl⟩ := List.mem_map.mp hmem
  exact List.mem_map_of_mem (List.mem_of_mem_filter (List.mem_of_mem_filter hedge))

theorem Sound.has_of_mem_allCallees {store : Store} (hsound : store.Sound) {id callee : String}
    {depth : Nat} {level : List String} (hlevel : level ∈ store.allCallees id depth)
    (hcallee : callee ∈ level) : store.has callee = true := by
  rw [allCallees] at hlevel
  split at hlevel
  · obtain ⟨⟨before, hstep⟩, -⟩ := mem_of_mem_scannedLevels hlevel hcallee
    obtain ⟨edge, hedge, rfl⟩ := List.mem_map.mp (calledBy_subset store before hstep)
    exact (hsound.ends_known edge hedge).2
  · cases hlevel

theorem route_of_findPath? {store : Store} {source target : String} {depth : Nat}
    {types? : Option (List String)} {path : List String} (hne : source ≠ target)
    (hfound : store.findPath? source target depth types? = some path) :
    Route (store.successors types?) source target path := by
  rw [findPath?] at hfound
  split at hfound
  · exact route_of_shortestPath? hne hfound
  · cases hfound

/-- How long the path is along calls depends on the level of callees that the target is in. -/
theorem Sound.map_length_findPath? {store : Store} (hsound : store.Sound) {source target : String}
    (hne : source ≠ target) (depth : Nat) :
    (store.findPath? source target depth (some ["calls"])).map List.length =
      ((store.allCallees source depth).findIdx? (·.contains target)).map (· + 2) := by
  by_cases hsource : store.has source = true
  · by_cases htarget : store.has target = true
    · have hlength := map_length_shortestPath? (calledBy_subset store) hne depth
      rw [List.length_map] at hlength
      simpa [findPath?, allCallees, hsource, htarget, successors_calls] using hlength
    · have hmissing : (store.allCallees source depth).findIdx? (·.contains target) = none := by
        rw [List.findIdx?_eq_none_iff]
        intro level hlevel
        rw [List.contains_eq_mem, decide_eq_false_iff_not]
        exact fun hmem => htarget (hsound.has_of_mem_allCallees hlevel hmem)
      rw [hmissing]
      simp [findPath?, htarget]
  · simp [findPath?, allCallees, hsource]

theorem findIdx?_allCallees_eq_some_iff (store : Store) (id target : String)
    (depth place : Nat) :
    (store.allCallees id depth).findIdx? (·.contains target) = some place ↔
      ∃ level, (store.allCallees id depth)[place]? = some level ∧ target ∈ level := by
  rw [allCallees]
  split
  · exact findIdx?_scannedLevels_eq_some_iff
  · simp

theorem traversals_agree (history : List Mutation) (id : String) (depth : Nat) :
    let store := ofHistory history
    store.neighbors id ["calls"] depth none = (store.allCallees id depth).flatten ∧
    store.neighbors id ["called_by"] depth none = (store.allCallers id depth).flatten ∧
    ∀ target, id ≠ target → ∀ hops,
      (∃ path, store.findPath? id target depth (some ["calls"]) = some path ∧
        Route store.calledBy id target path ∧ path.length = hops + 1) ↔
      0 < hops ∧ ∃ level, (store.allCallees id depth)[hops - 1]? = some level ∧ target ∈ level := by
  intro store
  refine ⟨?_, ?_, ?_⟩
  · rw [neighbors_none, map_fst_stepsFrom_calls, allCallees]
    split <;> rfl
  · rw [neighbors_none, map_fst_stepsFrom_called_by, allCallers]
    split <;> rfl
  · intro target hne hops
    have hlength := (Sound.ofHistory history).map_length_findPath? hne depth
    constructor
    · rintro ⟨path, hfound, -, hhops⟩
      rw [hfound, Option.map_some, eq_comm, Option.map_eq_some_iff] at hlength
      obtain ⟨place, hplace, hsame⟩ := hlength
      obtain rfl : place + 1 = hops := by omega
      exact ⟨Nat.succ_pos _, (findIdx?_allCallees_eq_some_iff ..).mp hplace⟩
    · rintro ⟨hpos, hlevel⟩
      rw [(findIdx?_allCallees_eq_some_iff ..).mpr hlevel, Option.map_some,
        Option.map_eq_some_iff] at hlength
      obtain ⟨path, hfound, hhops⟩ := hlength
      refine ⟨path, hfound, successors_calls store ▸ route_of_findPath? hne hfound, ?_⟩
      omega

/-- Calls that go round, and an import on a shorter way. -/
def roundTrip : List Mutation :=
  [.addEdge { source := "a", target := "b", relation := .calls },
    .addEdge { source := "a", target := "c", relation := .imports },
    .addEdge { source := "b", target := "c", relation := .calls },
    .addEdge { source := "c", target := "a", relation := .calls }]

theorem traversals_agree_on_roundTrip :
    ∃ path, (ofHistory roundTrip).findPath? "a" "c" 5 (some ["calls"]) = some path ∧
      Route (ofHistory roundTrip).calledBy "a" "c" path ∧ path.length = 3 :=
  ((traversals_agree roundTrip "a" 5).2.2 "c" (by decide) 2).mpr
    ⟨by decide, ["c"], by decide +kernel, by decide⟩

end Store

end CodeGraph
