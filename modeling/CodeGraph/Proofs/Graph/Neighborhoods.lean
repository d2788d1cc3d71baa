import CodeGraph.Proofs.Graph.Distances
import CodeGraph.Proofs.Graph.Paths

namespace CodeGraph

/-! Callers, callees and neighbours of a node are the nodes around it, by their distance. -/

/-! Names of relations and of their inverses -/

namespace Relation

theorem find?_all_eq_some_iff {naming : Relation → String}
    (hnaming : ∀ relation, all.find? (fun other => naming other == naming relation) = some relation)
    {name : String} {relation : Relation} :
    all.find? (fun other => naming other == name) = some relation ↔ name = naming relation := by
  constructor
  · intro hfound
    have hsame := List.find?_some hfound
    exact (beq_iff_eq.mp hsame).symm
  · rintro rfl
    exact hnaming relation

theorem ofName?_eq_some_iff {name : String} {relation : Relation} :
    ofName? name = some relation ↔ name = relation.name :=
  find?_all_eq_some_iff ofName?_name

theorem ofInverseName?_eq_some_iff {name : String} {relation : Relation} :
    ofInverseName? name = some relation ↔ name = relation.inverseName :=
  find?_all_eq_some_iff ofInverseName?_inverseName

/-- The name of the relation read the other way.  Names that mean nothing stay as they are. -/
def invertName (name : String) : String :=
  (((ofName? name).map inverseName).or ((ofInverseName? name).map Relation.name)).getD name

theorem invertName_name (relation : Relation) :
    invertName relation.name = relation.inverseName := by
  rw [invertName, ofName?_name]
  rfl

theorem invertName_inverseName (relation : Relation) :
    invertName relation.inverseName = relation.name := by
  rw [invertName, ofName?_inverseName, ofInverseName?_inverseName]
  rfl

theorem involutive_invertName : Function.Involutive invertName := by
  intro name
  cases hname : ofName? name with
  | some relation =>
      rw [ofName?_eq_some_iff.mp hname, invertName_name, invertName_inverseName]
  | none =>
      cases hinverse : ofInverseName? name with
      | some relation =>
          rw [ofInverseName?_eq_some_iff.mp hinverse, invertName_inverseName, invertName_name]
      | none =>
          have hsame : invertName name = name := by
            rw [invertName, hname, hinverse]
            rfl
          rw [hsame, hsame]

theorem mem_map_invertName {name : String} {names : List String} :
    name ∈ names.map invertName ↔ invertName name ∈ names := by
  rw [List.mem_map]
  constructor
  · rintro ⟨other, hother, rfl⟩
    rwa [involutive_invertName]
  · intro hname
    exact ⟨invertName name, hname, involutive_invertName name⟩

end Relation

theorem Following.mem_forward {names : List String} {relation : Relation} :
    relation ∈ (ofNames names).forward ↔ relation.name ∈ names :=
  Relation.mem_filterMap_ofName?

theorem Following.mem_backward {names : List String} {relation : Relation} :
    relation ∈ (ofNames names).backward ↔ relation.inverseName ∈ names := by
  rw [ofNames, List.mem_filterMap]
  constructor
  · rintro ⟨name, hname, hfound⟩
    split at hfound
    · cases hfound
    · exact Relation.ofInverseName?_eq_some_iff.mp hfound ▸ hname
  · intro hname
    refine ⟨relation.inverseName, hname, ?_⟩
    rw [Relation.ofName?_inverseName, Relation.ofInverseName?_inverseName]
    rfl

namespace Store

/-! Steps along edges -/

def Calls (store : Store) (caller callee : String) : Prop :=
  ∃ edge ∈ store.edges, edge.relation = .calls ∧ edge.source = caller ∧ edge.target = callee

/-- A named relation is followed from source to target, and one whose inverse is named from target
to source. -/
def Follows (store : Store) (names : List String) (before after : String) : Prop :=
  ∃ edge ∈ store.edges,
    (edge.relation.name ∈ names ∧ edge.source = before ∧ edge.target = after) ∨
    (edge.relation.inverseName ∈ names ∧ edge.target = before ∧ edge.source = after)

theorem mem_calledBy {store : Store} {caller callee : String} :
    callee ∈ store.calledBy caller ↔ store.Calls caller callee := by
  simp only [calledBy, edgesFrom, Calls, List.mem_map, List.mem_filter, beq_iff_eq]
  constructor
  · rintro ⟨edge, ⟨⟨hedge, hsource⟩, hcalls⟩, htarget⟩
    exact ⟨edge, hedge, hcalls, hsource, htarget⟩
  · rintro ⟨edge, hedge, hcalls, hsource, htarget⟩
    exact ⟨edge, ⟨⟨hedge, hsource⟩, hcalls⟩, htarget⟩

theorem mem_calling {store : Store} {caller callee : String} :
    caller ∈ store.calling callee ↔ store.Calls caller callee := by
  simp only [calling, edgesTo, Calls, List.mem_map, List.mem_filter, beq_iff_eq]
  constructor
  · rintro ⟨edge, ⟨⟨hedge, htarget⟩, hcalls⟩, hsource⟩
    exact ⟨edge, hedge, hcalls, hsource, htarget⟩
  · rintro ⟨edge, hedge, hcalls, hsource, htarget⟩
    exact ⟨edge, ⟨⟨hedge, htarget⟩, hcalls⟩, hsource⟩

theorem mem_map_fst_stepsFrom {store : Store} {names : List String} {before after : String} :
    after ∈ (store.stepsFrom (.ofNames names) before).map Prod.fst ↔
      store.Follows names before after := by
  simp only [stepsFrom, Follows, List.mem_map, List.mem_flatMap, List.mem_append]
  constructor
  · rintro ⟨found, ⟨edge, hedge, hforward | hbackward⟩, rfl⟩
    · split at hforward
      · next hends =>
          cases List.mem_singleton.mp hforward
          simp only [Bool.and_eq_true, beq_iff_eq, List.contains_iff_mem,
            Following.mem_forward] at hends
          exact ⟨edge, hedge, .inl ⟨hends.2, hends.1, rfl⟩⟩
      · cases hforward
    · split at hbackward
      · next hends =>
          cases List.mem_singleton.mp hbackward
          simp only [Bool.and_eq_true, beq_iff_eq, List.contains_iff_mem,
            Following.mem_backward] at hends
          exact ⟨edge, hedge, .inr ⟨hends.2, hends.1, rfl⟩⟩
      · cases hbackward
  · rintro ⟨edge, hedge, ⟨hname, rfl, rfl⟩ | ⟨hname, rfl, rfl⟩⟩
    · refine ⟨(edge.target, edge.relation), ⟨edge, hedge, .inl ?_⟩, rfl⟩
      simp [Following.mem_forward.mpr hname]
    · refine ⟨(edge.source, edge.relation), ⟨edge, hedge, .inr ?_⟩, rfl⟩
      simp [Following.mem_backward.mpr hname]

/-- Weights sort what is behind a frontier and leave nothing out. -/
theorem frontierSteps_perm (store : Store) (following : Following) (weights? : Option Weights)
    (frontier : List String) :
    (store.frontierSteps following weights? frontier).Perm
      (frontier.flatMap fun id => (store.stepsFrom following id).map Prod.fst) := by
  rw [← List.map_flatMap]
  cases weights? with
  | none => exact .refl _
  | some weights => exact (List.mergeSort_perm _ _).map Prod.fst

theorem expands_frontierSteps (store : Store) (names : List String) (weights? : Option Weights) :
    Expands (store.Follows names) (store.frontierSteps (.ofNames names) weights?) := by
  intro frontier after
  rw [(store.frontierSteps_perm (.ofNames names) weights? frontier).mem_iff]
  exact expands_flatMap (fun _ _ => mem_map_fst_stepsFrom) frontier after

theorem follows_map_invertName (store : Store) (names : List String) :
    store.Follows (names.map Relation.invertName) = flip (store.Follows names) := by
  funext before after
  apply propext
  simp only [Follows, flip, Relation.mem_map_invertName, Relation.invertName_name,
    Relation.invertName_inverseName]
  refine exists_congr fun edge => and_congr_right fun _ => ?_
  rw [or_comm, and_comm (a := edge.source = before), and_comm (a := edge.target = before)]

theorem Sound.has_of_calls {store : Store} (hsound : store.Sound) {caller callee : String}
    (hcalls : store.Calls caller callee) : store.has caller = true ∧ store.has callee = true := by
  obtain ⟨edge, hedge, -, rfl, rfl⟩ := hcalls
  exact hsound.ends_known edge hedge

theorem Sound.has_of_follows {store : Store} (hsound : store.Sound) {names : List String}
    {before after : String} (hfollows : store.Follows names before after) :
    store.has before = true := by
  obtain ⟨edge, hedge, ⟨-, rfl, -⟩ | ⟨-, rfl, -⟩⟩ := hfollows
  · exact (hsound.ends_known edge hedge).1
  · exact (hsound.ends_known edge hedge).2

/-- No step starts at a node that is not known, so that nothing is near it. -/
theorem listsDistances_of_known {store : Store} {step : String → String → Prop}
    {expand : List String → List String} (hexpands : Expands step expand)
    (hknown : ∀ before after, step before after → store.has before = true) (id : String)
    (depth : Nat) :
    ListsDistances step id 1 depth (if store.has id then levels expand depth id else []) := by
  split
  · exact listsDistances_levels hexpands depth
  · next hmissing =>
      apply ListsDistances.nil
      intro _ node hdistance
      have hstuck : ∀ after, ¬step id after := fun after hstep => hmissing (hknown id after hstep)
      cases hdistance.count_eq_zero hstuck

theorem Sound.listsDistances_allCallees {store : Store} (hsound : store.Sound) (id : String)
    (depth : Nat) : ListsDistances store.Calls id 1 depth (store.allCallees id depth) := by
  rw [allCallees, scannedLevels_eq_levelsUpTo]
  exact listsDistances_of_known (expands_flatMap fun _ _ => mem_calledBy)
    (fun _ _ hcalls => (hsound.has_of_calls hcalls).1) id depth

theorem Sound.listsDistances_allCallers {store : Store} (hsound : store.Sound) (id : String)
    (depth : Nat) : ListsDistances (flip store.Calls) id 1 depth (store.allCallers id depth) := by
  rw [allCallers, scannedLevels_eq_levelsUpTo]
  exact listsDistances_of_known (expands_flatMap fun _ _ => mem_calling)
    (fun _ _ hcalls => (hsound.has_of_calls hcalls).2) id depth

theorem call_levels_by_distance (history : List Mutation) (id : String) (depth : Nat) :
    let store := ofHistory history
    ListsDistances store.Calls id 1 depth (store.allCallees id depth) ∧
    ListsDistances (flip store.Calls) id 1 depth (store.allCallers id depth) ∧
    id ∉ (store.allCallees id depth).flatten ∧
    id ∉ (store.allCallers id depth).flatten ∧
    ∀ (other : String) (place : Nat),
      (∃ level, (store.allCallers id depth)[place]? = some level ∧ other ∈ level) ↔
        ∃ level, (store.allCallees other depth)[place]? = some level ∧ id ∈ level := by
  intro store
  have hsound : store.Sound := Sound.ofHistory history
  have hcallees := hsound.listsDistances_allCallees id depth
  have hcallers := hsound.listsDistances_allCallers id depth
  refine ⟨hcallees, hcallers, hcallees.start_not_mem_flatten Nat.one_pos,
    hcallers.start_not_mem_flatten Nat.one_pos, ?_⟩
  intro other place
  rw [hcallers.exists_level_iff, (hsound.listsDistances_allCallees other depth).exists_level_iff,
    distance_flip]

/-! Neighbours -/

/-- The neighbours class by class. -/
def neighborLevels (store : Store) (id : String) (names : List String) (depth : Nat)
    (weights? : Option Weights) : List (List String) :=
  if store.has id then levels (store.frontierSteps (.ofNames names) weights?) depth id else []

theorem neighbors_eq_flatten (store : Store) (id : String) (names : List String) (depth : Nat)
    (weights? : Option Weights) :
    store.neighbors id names depth weights? =
      (store.neighborLevels id names depth weights?).flatten := by
  rw [neighbors, neighborLevels]
  split <;> rfl

theorem Sound.listsDistances_neighborLevels {store : Store} (hsound : store.Sound) (id : String)
    (names : List String) (depth : Nat) (weights? : Option Weights) :
    ListsDistances (store.Follows names) id 1 depth
      (store.neighborLevels id names depth weights?) :=
  listsDistances_of_known (store.expands_frontierSteps names weights?)
    (fun _ _ hfollows => hsound.has_of_follows hfollows) id depth

theorem Sound.mem_neighbors {store : Store} (hsound : store.Sound) {id node : String}
    {names : List String} {depth : Nat} {weights? : Option Weights} :
    node ∈ store.neighbors id names depth weights? ↔
      ∃ place < depth, Distance (store.Follows names) id (1 + place) node := by
  rw [neighbors_eq_flatten]
  exact (hsound.listsDistances_neighborLevels id names depth weights?).mem_flatten_iff

theorem neighbors_by_distance (history : List Mutation) (id : String) (names : List String)
    (depth : Nat) (weights? : Option Weights) :
    let store := ofHistory history
    let step := store.Follows names
    let near := store.neighbors id names depth weights?
    near.Nodup ∧
    (∀ node, node ∈ near ↔ node ≠ id ∧ ∃ count ≤ depth, Hops step id count node) ∧
    (near.Pairwise fun a b => ∀ m n, Distance step id m a → Distance step id n b → m ≤ n) ∧
    -- weights move nodes inside the classes of the search without weights
    (∃ classes arranged : List (List String),
      ListsDistances step id 1 depth classes ∧
      store.neighbors id names depth none = classes.flatten ∧
      near = arranged.flatten ∧ List.Forall₂ List.Perm arranged classes) ∧
    -- seen from the other end, with other weights or none
    ∀ other others?, other ∈ near ↔
      id ∈ store.neighbors other (names.map Relation.invertName) depth others? := by
  intro store step near
  have hsound : store.Sound := Sound.ofHistory history
  have hlists := hsound.listsDistances_neighborLevels id names depth weights?
  have hplain := hsound.listsDistances_neighborLevels id names depth none
  have hnear : near = (store.neighborLevels id names depth weights?).flatten :=
    store.neighbors_eq_flatten id names depth weights?
  refine ⟨?_, ?_, ?_, ?_, ?_⟩
  · rw [hnear]
    exact hlists.nodup_flatten
  · intro node
    rw [hsound.mem_neighbors, exists_distance_iff]
  · rw [hnear]
    exact hlists.pairwise_flatten
  · exact ⟨_, _, hplain, store.neighbors_eq_flatten id names depth none, hnear,
      hlists.forall₂_perm hplain⟩
  · intro other others?
    rw [hsound.mem_neighbors, hsound.mem_neighbors, follows_map_invertName]
    simp only [distance_flip]

end Store

end CodeGraph
