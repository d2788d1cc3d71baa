import CodeGraph.Graph.Search
import CodeGraph.Proofs.Graph.Levels

namespace CodeGraph

/-! Two more searches that meet the same nodes.  One keeps a queue of paths, and the other one a
queue of nodes and a map from each node to the one before it, from which a path is read off. -/

variable {α : Type} [BEq α] [LawfulBEq α] {next : α → List α}

/-! Searching with a queue of paths -/

/-- Search for a goal with a queue of paths, each listed from its end.  A path of the most hops is
taken from the queue and given up.  Every path in the queue ends at a node of its own, so that a
bound on their number is fuel enough. -/
def searchPath (next : α → List α) (goal : α) (maxHops : Nat) :
    Nat → List α → List (List α) → Option (List α)
  | fuel + 1, seen, path :: queue =>
      if path.length > maxHops then searchPath next goal maxHops fuel seen queue
      else
        let found := firstBy id seen (path.head?.elim [] next)
        if found.contains goal then some (goal :: path).reverse
        else
          searchPath next goal maxHops fuel (seen ++ found)
            (queue ++ found.map fun node => node :: path)
  | _, _, _ => none

/-- How many hops a search is away from a goal, if the paths that it tries first end at the nodes of
`now` and may grow by some hops, and the other paths end at those of `later` and are one hop
longer. -/
def hopsTo? (next : α → List α) (goal : α) :
    (hops : Nat) → (seen now later : List α) → Option Nat
  | 0, _, _, _ => none
  | hops + 1, seen, now, later =>
      let found := scan next seen now
      if found.contains goal then some 1
      else
        ((scannedLevels next hops (seen ++ found) (later ++ found)).findIdx?
          (·.contains goal)).map (· + 2)

omit [LawfulBEq α] in
/-- When the shorter paths are all tried, the others take their place. -/
theorem hopsTo?_nil (goal : α) (hops : Nat) (seen later : List α) :
    hopsTo? next goal (hops + 1) seen [] later =
      (hopsTo? next goal hops seen later []).map (· + 1) := by
  cases hops with
  | zero => rfl
  | succ hops =>
      simp only [hopsTo?, scan, List.contains_nil, Bool.false_eq_true, if_false, List.append_nil,
        List.nil_append, scannedLevels]
      split
      · next hnone =>
          rw [hnone, scannedLevels_nil]
          rfl
      · rw [List.findIdx?_cons]
        split
        · rfl
        · rw [Option.map_map, Option.map_map]
          rfl

theorem hopsTo?_of_mem {goal : α} {hops : Nat} {seen now later : List α} {node : α}
    (hgoal : goal ∈ firstBy id seen (next node)) :
    hopsTo? next goal (hops + 1) seen (node :: now) later = some 1 := by
  simp only [hopsTo?, scan, List.contains_iff_mem, List.mem_append, hgoal, true_or, if_true]

/-- A path that is tried and does not lead to the goal leaves the rest of the search as it was. -/
theorem hopsTo?_cons {goal : α} {hops : Nat} {seen now later : List α} {node : α}
    (hmissing : goal ∉ firstBy id seen (next node)) :
    hopsTo? next goal (hops + 1) seen (node :: now) later =
      hopsTo? next goal (hops + 1) (seen ++ firstBy id seen (next node)) now
        (later ++ firstBy id seen (next node)) := by
  simp only [hopsTo?, scan, List.contains_iff_mem, List.mem_append, hmissing, false_or,
    List.append_assoc]

/-- The nodes that paths end at. -/
def ends (paths : List (List α)) : List α :=
  paths.filterMap List.head?

omit [BEq α] [LawfulBEq α] in
theorem ends_append_map_cons (paths : List (List α)) (path nodes : List α) :
    ends (paths ++ nodes.map (· :: path)) = ends paths ++ nodes := by
  simp [ends, List.filterMap_map, Function.comp_def]

theorem hopsTo?_nil_nil (goal : α) (hops : Nat) (seen : List α) :
    hopsTo? next goal hops seen [] [] = none := by
  cases hops with
  | zero => rfl
  | succ hops => simp [hopsTo?, scan, scannedLevels_nil]

omit [LawfulBEq α] in
theorem map_hopsTo?_nil (goal : α) (maxHops length : Nat) (seen later : List α) :
    (hopsTo? next goal (maxHops + 1 - length) seen [] later).map (· + length) =
      (hopsTo? next goal (maxHops + 1 - (length + 1)) seen later []).map (· + (length + 1)) := by
  rw [← Nat.sub_sub]
  cases maxHops + 1 - length with
  | zero => rfl
  | succ hops =>
      rw [hopsTo?_nil, Option.map_map, Nat.add_sub_cancel]
      congr 1
      funext more
      simp only [Function.comp_apply]
      omega

/-- The paths that wait in a search: first those of some length, then those with one more node.  The
fuel lasts for them and for the nodes that are not seen. -/
structure Waiting (nodes seen : List α) (fuel length : Nat) (now later : List (List α)) : Prop where
  pos : 0 < length
  length_now : ∀ path ∈ now, path.length = length
  length_later : ∀ path ∈ later, path.length = length + 1
  lasts : now.length + later.length + unseen nodes seen ≤ fuel

namespace Waiting

variable {nodes seen path : List α} {fuel length : Nat} {now later : List (List α)}

omit [LawfulBEq α] in
theorem turn (hwaiting : Waiting nodes seen fuel length [] later) :
    Waiting nodes seen fuel (length + 1) later [] where
  pos := Nat.succ_pos _
  length_now := hwaiting.length_later
  length_later := by simp
  lasts := by
    have hlasts := hwaiting.lasts
    rw [List.length_nil] at hlasts ⊢
    omega

omit [LawfulBEq α] in
theorem drop (hwaiting : Waiting nodes seen (fuel + 1) length (path :: now) later) :
    Waiting nodes seen fuel length now later where
  pos := hwaiting.pos
  length_now := fun other hmem => hwaiting.length_now other (List.mem_cons_of_mem _ hmem)
  length_later := hwaiting.length_later
  lasts := by
    have hlasts := hwaiting.lasts
    rw [List.length_cons] at hlasts
    omega

theorem extend (hwaiting : Waiting nodes seen (fuel + 1) length (path :: now) later)
    {found : List α} (hnodup : found.Nodup)
    (hfound : ∀ node ∈ found, node ∈ nodes ∧ node ∉ seen) :
    Waiting nodes (seen ++ found) fuel length now (later ++ found.map (· :: path)) where
  pos := hwaiting.pos
  length_now := hwaiting.drop.length_now
  length_later := by
    intro other hmem
    rcases List.mem_append.mp hmem with hlater | hnew
    · exact hwaiting.length_later other hlater
    · obtain ⟨node, -, rfl⟩ := List.mem_map.mp hnew
      rw [List.length_cons, hwaiting.length_now path List.mem_cons_self]
  lasts := by
    have hlasts := hwaiting.drop.lasts
    have hless := unseen_append hnodup hfound
    rw [List.length_append, List.length_map]
    omega

end Waiting

/-- The first path of a level is dropped as too long, ends at the goal or is replaced by longer ones,
and the search goes on in the level. -/
theorem map_length_searchPath_cons {nodes : List α} (hnext : ∀ node, next node ⊆ nodes) {goal : α}
    {maxHops fuel : Nat}
    (hrest : ∀ {length : Nat} {seen : List α} {now later : List (List α)},
      Waiting nodes seen fuel length now later →
      (searchPath next goal maxHops fuel seen (now ++ later)).map List.length =
        (hopsTo? next goal (maxHops + 1 - length) seen (ends now) (ends later)).map (· + length))
    {length : Nat} {seen path : List α} {now later : List (List α)}
    (hwaiting : Waiting nodes seen (fuel + 1) length (path :: now) later) :
    (searchPath next goal maxHops (fuel + 1) seen (path :: now ++ later)).map List.length =
      (hopsTo? next goal (maxHops + 1 - length) seen (ends (path :: now))
        (ends later)).map (· + length) := by
  have hpath : path.length = length := hwaiting.length_now path List.mem_cons_self
  obtain ⟨node, tail, rfl⟩ := List.exists_cons_of_length_pos (hpath ▸ hwaiting.pos)
  rw [List.cons_append, searchPath, hpath]
  split
  · next hlong =>
      have hhops : maxHops + 1 - length = 0 := by omega
      rw [hrest hwaiting.drop, hhops]
      rfl
  · next hshort =>
      obtain ⟨hops, hhops⟩ : ∃ hops, maxHops + 1 - length = hops + 1 :=
        ⟨maxHops - length, by omega⟩
      have hends : ends ((node :: tail) :: now) = node :: ends now := rfl
      simp only [List.head?_cons, Option.elim_some, hends, List.contains_iff_mem]
      split
      · next hgoal =>
          rw [hhops, hopsTo?_of_mem hgoal, Option.map_some, Option.map_some,
            List.length_reverse, List.length_cons, hpath, Nat.add_comm]
      · next hmissing =>
          have hnew := hwaiting.extend (nodup_firstBy_id seen (next node)) fun other hmem =>
            ⟨hnext node (mem_firstBy_id.mp hmem).1, (mem_firstBy_id.mp hmem).2⟩
          rw [List.append_assoc, hrest hnew, hhops, hopsTo?_cons hmissing, ends_append_map_cons]

/-- The search with a queue goes level by level: how long the path is that it finds can be read off
the levels. -/
theorem map_length_searchPath {nodes : List α} (hnext : ∀ node, next node ⊆ nodes) {goal : α}
    {maxHops fuel length : Nat} {seen : List α} {now later : List (List α)}
    (hwaiting : Waiting nodes seen fuel length now later) :
    (searchPath next goal maxHops fuel seen (now ++ later)).map List.length =
      (hopsTo? next goal (maxHops + 1 - length) seen (ends now) (ends later)).map (· + length) := by
  induction fuel generalizing length seen now later with
  | zero =>
      have hnil : now = [] ∧ later = [] := by
        have hlasts := hwaiting.lasts
        simp only [← List.length_eq_zero_iff]
        omega
      rw [hnil.1, hnil.2, ends, List.filterMap_nil, hopsTo?_nil_nil]
      rfl
  | succ fuel ih =>
      cases now with
      | cons path now => exact map_length_searchPath_cons hnext ih hwaiting
      | nil =>
          cases later with
          | nil =>
              rw [ends, List.filterMap_nil, hopsTo?_nil_nil]
              rfl
          | cons path later =>
              -- the level is done, and the paths that wait are those of the next one
              rw [List.nil_append, ← List.append_nil (path :: later),
                map_length_searchPath_cons hnext ih hwaiting.turn, List.append_nil]
              exact (map_hopsTo?_nil goal maxHops length seen _).symm

/-! What is found -/

/-- A path from one node to another that goes one step at a time. -/
structure Route (next : α → List α) (start goal : α) (path : List α) : Prop where
  starts : path.head? = some start
  stops : path.getLast? = some goal
  steps : path.IsChain fun before after => after ∈ next before

/-- A path that is listed from its end. -/
def Backward (next : α → List α) (start : α) (path : List α) : Prop :=
  path.getLast? = some start ∧ path.IsChain fun after before => after ∈ next before

omit [BEq α] [LawfulBEq α] in
theorem Backward.cons {start node : α} {path : List α} (hpath : Backward next start path)
    (hstep : node ∈ path.head?.elim [] next) : Backward next start (node :: path) := by
  obtain ⟨hstart, hsteps⟩ := hpath
  cases path with
  | nil => cases hstart
  | cons before rest => exact ⟨hstart, List.IsChain.cons_cons hstep hsteps⟩

omit [BEq α] [LawfulBEq α] in
theorem Backward.route {start goal : α} {path : List α}
    (hpath : Backward next start (goal :: path)) :
    Route next start goal (goal :: path).reverse where
  starts := by rw [List.head?_reverse, hpath.1]
  stops := by rw [List.getLast?_reverse, List.head?_cons]
  steps := List.isChain_reverse.mpr hpath.2

theorem route_of_searchPath {start goal : α} {maxHops fuel : Nat} {seen : List α}
    {queue : List (List α)} {path : List α} (hqueue : ∀ path ∈ queue, Backward next start path)
    (hfound : searchPath next goal maxHops fuel seen queue = some path) :
    Route next start goal path := by
  induction fuel generalizing seen queue with
  | zero => cases hfound
  | succ fuel ih =>
      cases queue with
      | nil => cases hfound
      | cons first rest =>
          have hfirst := hqueue first List.mem_cons_self
          have hrest : ∀ path ∈ rest, Backward next start path :=
            fun path hmem => hqueue path (List.mem_cons_of_mem _ hmem)
          have hlonger : ∀ node ∈ firstBy id seen (first.head?.elim [] next),
              Backward next start (node :: first) :=
            fun node hmem => hfirst.cons (mem_firstBy_id.mp hmem).1
          rw [searchPath] at hfound
          split at hfound
          · exact ih hrest hfound
          · dsimp only at hfound
            split at hfound
            · next hgoal =>
                cases hfound
                exact (hlonger goal (List.contains_iff_mem.mp hgoal)).route
            · refine ih ?_ hfound
              intro path hmem
              rcases List.mem_append.mp hmem with hold | hnew
              · exact hrest path hold
              · obtain ⟨node, hnode, rfl⟩ := List.mem_map.mp hnew
                exact hlonger node hnode

/-! Searching with a queue of nodes -/

namespace PathSearch

/-- The map leads back along a path, which is listed from its end. -/
inductive Traced (parents : List (α × α)) : List α → Prop where
  | start {node : α} : parents.lookup node = none → Traced parents [node]
  | step {node parent : α} {rest : List α} :
      parents.lookup node = some parent → Traced parents (parent :: rest) →
        Traced parents (node :: parent :: rest)

omit [LawfulBEq α] in
theorem Traced.wayBack_eq {parents : List (α × α)} {node : α} {rest : List α} {fuel : Nat}
    (htraced : Traced parents (node :: rest)) (hfuel : rest.length ≤ fuel) :
    wayBack parents fuel node = node :: rest := by
  induction fuel generalizing node rest with
  | zero =>
      rw [List.length_eq_zero_iff.mp (Nat.le_zero.mp hfuel)]
      rfl
  | succ fuel ih =>
      cases htraced with
      | start hnone => rw [wayBack, hnone]
      | step hparent hrest =>
          rw [wayBack, hparent]
          exact congrArg _ (ih hrest (Nat.le_of_succ_le_succ hfuel))

/-- A node that is new on the map is not on the paths that it led back along. -/
theorem Traced.insert {parents : List (α × α)} {path : List α} {target node : α}
    (htraced : Traced parents path) (hnew : target ∉ path) :
    Traced ((target, node) :: parents) path := by
  have hlookup : ∀ other, target ≠ other →
      ((target, node) :: parents).lookup other = parents.lookup other := by
    intro other hne
    rw [List.lookup_cons, beq_false_of_ne hne.symm]
  induction htraced with
  | start hnone =>
      rw [List.mem_singleton] at hnew
      exact .start ((hlookup _ hnew).trans hnone)
  | step hparent _ ih =>
      rw [List.mem_cons, not_or] at hnew
      exact .step ((hlookup _ hnew.1).trans hparent) (ih hnew.2)

/-- A queued node stands for a path that the map leads back along. -/
structure StandsFor (parents : List (α × α)) (met : List α) (entry : α × Nat)
    (path : List α) : Prop where
  ends : path.head? = some entry.1
  length : path.length = entry.2 + 1
  traced : Traced parents path
  inside : path ⊆ met
  lasts : entry.2 ≤ parents.length

namespace StandsFor

variable {parents : List (α × α)} {met path : List α} {entry : α × Nat} {target : α}

theorem insert (hentry : StandsFor parents met entry path) (hnew : target ∉ met) (node : α) :
    StandsFor ((target, node) :: parents) (met ++ [target]) entry path where
  ends := hentry.ends
  length := hentry.length
  traced := hentry.traced.insert fun hmem => hnew (hentry.inside hmem)
  inside := List.subset_append_of_subset_left _ hentry.inside
  lasts := Nat.le_succ_of_le hentry.lasts

theorem extend (hentry : StandsFor parents met entry path) (hnew : target ∉ met) :
    StandsFor ((target, entry.1) :: parents) (met ++ [target]) (target, entry.2 + 1)
      (target :: path) where
  ends := rfl
  length := congrArg (· + 1) hentry.length
  traced := by
    have hpath := (hentry.insert hnew entry.1).traced
    obtain ⟨rest, rfl⟩ := List.head?_eq_some_iff.mp hentry.ends
    exact .step List.lookup_cons_self hpath
  inside := by
    rw [List.cons_subset]
    exact ⟨List.mem_append_right _ List.mem_cons_self,
      List.subset_append_of_subset_left _ hentry.inside⟩
  lasts := Nat.succ_le_succ hentry.lasts

end StandsFor

variable {goal : α} {entry : α × Nat} {path targets : List α}

/-- Where the goal is new, the path goes on to it. -/
theorem visit_of_mem (search : PathSearch α)
    (hentry : StandsFor search.parents search.met entry path)
    (hgoal : goal ∈ firstBy id search.met targets) :
    visit goal entry.1 entry.2 search targets = .inl (goal :: path).reverse := by
  induction targets generalizing search with
  | nil => cases hgoal
  | cons target rest ih =>
      rw [visit]
      by_cases hmet : target ∈ search.met
      · rw [if_pos (List.contains_iff_mem.mpr hmet)]
        rw [firstBy_id_cons_of_mem hmet] at hgoal
        exact ih search hentry hgoal
      · rw [if_neg (mt List.contains_iff_mem.mp hmet)]
        rw [firstBy_id_cons_of_new hmet, List.mem_cons] at hgoal
        by_cases hsame : target = goal
        · subst hsame
          have hlonger := hentry.extend hmet
          rw [if_pos (beq_self_eq_true target), hlonger.traced.wayBack_eq]
          rw [hentry.length]
          exact hlonger.lasts
        · rw [if_neg (by simpa using hsame)]
          exact ih _ (hentry.insert hmet entry.1) (hgoal.resolve_left (Ne.symm hsame))

/-- Otherwise a longer path is queued for each new node. -/
theorem visit_of_not_mem (search : PathSearch α) {paths : List (List α)}
    (hentry : StandsFor search.parents search.met entry path)
    (hqueue : List.Forall₂ (StandsFor search.parents search.met) search.queue paths)
    (hgoal : goal ∉ firstBy id search.met targets) :
    ∃ later, visit goal entry.1 entry.2 search targets = .inr later ∧
      later.met = search.met ++ firstBy id search.met targets ∧
      List.Forall₂ (StandsFor later.parents later.met) later.queue
        (paths ++ (firstBy id search.met targets).map (· :: path)) := by
  induction targets generalizing search paths with
  | nil =>
      refine ⟨search, rfl, ?_, ?_⟩
      · simp [firstBy]
      · simpa [firstBy] using hqueue
  | cons target rest ih =>
      rw [visit]
      by_cases hmet : target ∈ search.met
      · rw [if_pos (List.contains_iff_mem.mpr hmet)]
        rw [firstBy_id_cons_of_mem hmet] at hgoal ⊢
        exact ih search hentry hqueue hgoal
      · rw [if_neg (mt List.contains_iff_mem.mp hmet)]
        rw [firstBy_id_cons_of_new hmet] at hgoal ⊢
        rw [List.mem_cons, not_or] at hgoal
        rw [if_neg (by simpa using Ne.symm hgoal.1), List.map_cons, List.append_cons paths,
          List.append_cons search.met target (firstBy id _ rest)]
        refine ih ⟨_, search.met ++ [target], _⟩ (hentry.insert hmet entry.1) ?_ hgoal.2
        refine List.rel_append ?_ (.cons (hentry.extend hmet) .nil)
        exact hqueue.imp fun _ _ hother => hother.insert hmet entry.1

/-- Both searches find the same path. -/
theorem run_eq_searchPath {search : PathSearch α} {maxHops fuel : Nat} {paths : List (List α)}
    (hqueue : List.Forall₂ (StandsFor search.parents search.met) search.queue paths) :
    run next goal maxHops fuel search = searchPath next goal maxHops fuel search.met paths := by
  induction fuel generalizing search paths with
  | zero => rfl
  | succ fuel ih =>
      obtain ⟨parents, met, queue⟩ := search
      cases hqueue with
      | nil => rfl
      | @cons entry path queue paths hentry hrest =>
          rw [run, searchPath, hentry.length, hentry.ends]
          dsimp only [Option.elim_some] at hentry hrest ⊢
          by_cases hfar : entry.2 ≥ maxHops
          · rw [if_pos hfar, if_pos (Nat.lt_succ_of_le hfar)]
            exact ih hrest
          · rw [if_neg hfar, if_neg (by omega)]
            by_cases hgoal : goal ∈ firstBy id met (next entry.1)
            · rw [if_pos (List.contains_iff_mem.mpr hgoal), visit_of_mem _ hentry hgoal]
            · obtain ⟨later, hlater, hmet, hpaths⟩ :=
                visit_of_not_mem ⟨parents, met, queue⟩ hentry hrest hgoal
              rw [if_neg (mt List.contains_iff_mem.mp hgoal), hlater]
              dsimp only at hmet hpaths ⊢
              rw [ih hpaths, hmet]

end PathSearch

theorem shortestPath?_eq_searchPath {start goal : α} (hne : start ≠ goal) (fuel maxHops : Nat) :
    shortestPath? next fuel maxHops start goal =
      searchPath next goal maxHops (fuel + 1) [start] [[start]] := by
  have hstart : PathSearch.StandsFor [] [start] (start, 0) [start] :=
    { ends := rfl
      length := rfl
      traced := .start rfl
      inside := List.Subset.refl _
      lasts := Nat.le_refl 0 }
  rw [shortestPath?, if_neg (by simpa using hne)]
  exact PathSearch.run_eq_searchPath (.cons hstart .nil)

theorem route_of_shortestPath? {start goal : α} {fuel maxHops : Nat} {path : List α}
    (hne : start ≠ goal) (hfound : shortestPath? next fuel maxHops start goal = some path) :
    Route next start goal path := by
  rw [shortestPath?_eq_searchPath hne] at hfound
  refine route_of_searchPath ?_ hfound
  intro path hmem
  rw [List.mem_singleton.mp hmem]
  exact ⟨rfl, .singleton _⟩

theorem map_length_shortestPath? {nodes : List α} (hnext : ∀ node, next node ⊆ nodes)
    {start goal : α} (hne : start ≠ goal) (maxHops : Nat) :
    (shortestPath? next nodes.length maxHops start goal).map List.length =
      ((scannedLevels next maxHops [start] [start]).findIdx? (·.contains goal)).map (· + 2) := by
  have hwaiting : Waiting nodes [start] (nodes.length + 1) 1 [[start]] [] :=
    { pos := Nat.one_pos
      length_now := by simp
      length_later := by simp
      lasts := by
        have hless := unseen_le nodes [start]
        rw [List.length_singleton, List.length_nil]
        omega }
  rw [shortestPath?_eq_searchPath hne, ← List.append_nil [[start]],
    map_length_searchPath hnext hwaiting]
  exact (hopsTo?_nil goal maxHops [start] [start]).symm

end CodeGraph
