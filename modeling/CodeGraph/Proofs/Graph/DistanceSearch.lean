import CodeGraph.Graph.Search
import CodeGraph.Proofs.Graph.Levels

namespace CodeGraph

/-! A search with a queue goes level by level.  What it notes can be read off the levels: it visits
their nodes in order, meets those of each level at the same distance, and steps along the links from
each level to the next. -/

/-- The links that lead from the nodes of one level to those of another. -/
def linksBetween (next : Nat → List Nat) (near far : List Nat) : List (Nat × Nat) :=
  near.flatMap fun node => ((next node).filter far.contains).map fun target => (node, target)

/-- The links that lead from each level of a search to the next, in the order of the search. -/
def levelLinks (next : Nat → List Nat) : List (List Nat) → List (Nat × Nat)
  | near :: far :: rest => linksBetween next near far ++ levelLinks next (far :: rest)
  | _ => []

theorem mem_linksBetween {next : Nat → List Nat} {near far : List Nat} {link : Nat × Nat} :
    link ∈ linksBetween next near far ↔
      link.1 ∈ near ∧ link.2 ∈ far ∧ link.2 ∈ next link.1 := by
  obtain ⟨before, after⟩ := link
  simp only [linksBetween, List.mem_flatMap, List.mem_map, List.mem_filter, List.contains_iff_mem,
    Prod.mk.injEq]
  constructor
  · rintro ⟨_, hnear, _, ⟨hstep, hfar⟩, rfl, rfl⟩
    exact ⟨hnear, hfar, hstep⟩
  · rintro ⟨hnear, hfar, hstep⟩
    exact ⟨before, hnear, after, ⟨hstep, hfar⟩, rfl, rfl⟩

theorem levelLinks_eq_flatMap (next : Nat → List Nat) (levels : List (List Nat)) :
    levelLinks next levels =
      (levels.zip levels.tail).flatMap fun pair => linksBetween next pair.1 pair.2 := by
  fun_induction levelLinks next levels with
  | case1 near far rest ih =>
      rw [ih]
      rfl
  | case2 levels hshort =>
      cases levels with
      | nil => rfl
      | cons level rest =>
          cases rest with
          | nil => rfl
          | cons far rest => exact absurd rfl (hshort level far rest)

/-- The nodes of all levels behind one at some distance, each with its own distance. -/
def levelDistances (distance : Nat) : List (List Nat) → List (Nat × Nat)
  | [] => []
  | level :: rest => level.map (·, distance + 1) ++ levelDistances (distance + 1) rest

/-- What the other nodes of a level lead to is not new for the first one. -/
theorem linksBetween_cons_scan (next : Nat → List Nat) (far seen : List Nat) (node : Nat)
    (rest : List Nat) :
    linksBetween next (node :: rest) (far ++ scan next seen (node :: rest)) =
      ((next node).filter (far ++ firstBy id seen (next node)).contains).map
          (fun target => (node, target)) ++
        linksBetween next rest (far ++ scan next seen (node :: rest)) := by
  rw [linksBetween, List.flatMap_cons, linksBetween]
  congr 2
  apply List.filter_congr
  intro target htarget
  have hlater : target ∈ scan next (seen ++ firstBy id seen (next node)) rest →
      target ∈ firstBy id seen (next node) := by
    intro hmem
    have hnew := (mem_scan.mp hmem).2
    rw [List.mem_append, not_or] at hnew
    exact mem_firstBy_id.mpr ⟨htarget, hnew.1⟩
  rw [Bool.eq_iff_iff]
  simp only [scan, List.contains_iff_mem, List.mem_append]
  tauto

/-- All that a search comes across, the events of each kind by themselves. -/
structure Course where
  visited : List Nat := []
  met : List (Nat × Nat) := []
  steps : List (Nat × Nat) := []

def Course.note (course : Course) : SearchEvent → Course
  | .visits node => { course with visited := course.visited ++ [node] }
  | .meets node distance => { course with met := course.met ++ [(node, distance)] }
  | .steps node target => { course with steps := course.steps ++ [(node, target)] }

namespace DistanceSearch

/-! Whatever a search notes, it comes across the same events -/

section Notes

variable {ν μ : Type} {note : ν → SearchEvent → ν} {other : μ → SearchEvent → μ} {read : ν → μ}

def map (read : ν → μ) (search : DistanceSearch ν) : DistanceSearch μ :=
  { search with notes := read search.notes }

@[simp] theorem distance?_map (read : ν → μ) (search : DistanceSearch ν) (node : Nat) :
    (search.map read).distance? node = search.distance? node := rfl

variable (hread : ∀ notes event, read (note notes event) = other (read notes) event)

include hread

theorem meet_map (distance : Nat) (search : DistanceSearch ν) (target : Nat) :
    (search.map read).meet other distance target = (search.meet note distance target).map read := by
  rw [meet, meet, distance?_map]
  cases search.distance? target with
  | some _ => rfl
  | none => simp only [map, hread]

theorem follow_map (node : Nat) (search : DistanceSearch ν) (target : Nat) :
    (search.map read).follow other node target = (search.follow note node target).map read := by
  rw [follow, follow, distance?_map, meet_map hread, distance?_map]
  split
  · simp only [map, hread]
  · rfl

theorem run_map (next : Nat → List Nat) (fuel : Nat) (search : DistanceSearch ν) :
    run other next fuel (search.map read) = (run note next fuel search).map read := by
  induction fuel generalizing search with
  | zero => rfl
  | succ fuel ih =>
      obtain ⟨distances, queue, notes⟩ := search
      cases queue with
      | nil => rfl
      | cons node queue =>
          rw [run, run, ← ih, ← List.foldl_hom (map read) (follow_map hread node)]
          simp only [map, hread]

end Notes

/-! One level after the other -/

section Levels

variable {search : DistanceSearch Course} {next : Nat → List Nat} {size distance : Nat}
  {seen near far : List Nat}

/-- The distances in a search that has come to a level: all of it is known, and some of the next
one. -/
structure Marks (search : DistanceSearch Course) (size distance : Nat)
    (seen near far : List Nat) : Prop where
  size_eq : search.distances.size = size
  isSome_iff : ∀ node, (search.distance? node).isSome ↔ node ∈ seen
  near : ∀ node ∈ near, search.distance? node = some distance
  far_iff : ∀ node, search.distance? node = some (distance + 1) ↔ node ∈ far
  le : ∀ node other, search.distance? node = some other → other ≤ distance + 1

namespace Marks

theorem near_subset (hmarks : Marks search size distance seen near far) : near ⊆ seen := by
  intro node hnode
  rw [← hmarks.isSome_iff, hmarks.near node hnode]
  rfl

theorem meet_of_seen (hmarks : Marks search size distance seen near far) {target : Nat}
    (hseen : target ∈ seen) (farther : Nat) : search.meet Course.note farther target = search := by
  obtain ⟨known, hknown⟩ := Option.isSome_iff_exists.mp ((hmarks.isSome_iff target).mpr hseen)
  rw [meet, hknown]

section New

variable (hmarks : Marks search size distance seen near far) {target : Nat} (hnew : target ∉ seen)

include hmarks hnew

theorem meet_of_new (farther : Nat) :
    search.meet Course.note farther target =
      { distances := search.distances.setIfInBounds target (some farther)
        queue := search.queue ++ [target]
        notes := search.notes.note (.meets target farther) } := by
  rw [← hmarks.isSome_iff, Option.not_isSome_iff_eq_none] at hnew
  rw [meet, hnew]

variable (htarget : target < size)

include htarget

theorem distance?_meet (farther node : Nat) :
    (search.meet Course.note farther target).distance? node =
      if target = node then some farther else search.distance? node := by
  rw [hmarks.meet_of_new hnew, distance?, distance?, Array.getD_eq_getD_getElem?,
    Array.getD_eq_getD_getElem?, Array.getElem?_setIfInBounds, hmarks.size_eq]
  by_cases hsame : target = node
  · simp [hsame, hsame ▸ htarget]
  · simp [hsame]

/-- A new node is one of the next level. -/
theorem meet :
    Marks (search.meet Course.note (distance + 1) target) size distance (seen ++ [target]) near
      (far ++ [target]) where
  size_eq := by
    rw [hmarks.meet_of_new hnew]
    exact (Array.size_setIfInBounds ..).trans hmarks.size_eq
  isSome_iff := by
    intro node
    rw [hmarks.distance?_meet hnew htarget, List.mem_append, List.mem_singleton,
      ← hmarks.isSome_iff]
    by_cases hsame : target = node
    · simp [hsame]
    · simp [hsame, Ne.symm hsame]
  near := by
    intro node hnode
    have hne : target ≠ node := by
      rintro rfl
      exact hnew (hmarks.near_subset hnode)
    rw [hmarks.distance?_meet hnew htarget, if_neg hne, hmarks.near node hnode]
  far_iff := by
    intro node
    rw [hmarks.distance?_meet hnew htarget, List.mem_append, List.mem_singleton, ← hmarks.far_iff]
    by_cases hsame : target = node
    · simp [hsame]
    · simp [hsame, Ne.symm hsame]
  le := by
    intro node other hother
    rw [hmarks.distance?_meet hnew htarget] at hother
    split at hother
    · exact (Option.some.inj hother).ge
    · exact hmarks.le node other hother

end New

/-- It does not matter what waits and what was noted. -/
theorem keep (hmarks : Marks search size distance seen near far) (queue : List Nat)
    (notes : Course) :
    Marks { distances := search.distances, queue, notes } size distance seen near far :=
  ⟨hmarks.size_eq, hmarks.isSome_iff, hmarks.near, hmarks.far_iff, hmarks.le⟩

/-- When a level is done, the next one takes its place. -/
theorem turn (hmarks : Marks search size distance seen near far) :
    Marks search size (distance + 1) seen far [] where
  size_eq := hmarks.size_eq
  isSome_iff := hmarks.isSome_iff
  near := fun node => (hmarks.far_iff node).mpr
  far_iff := by
    intro node
    refine ⟨fun hfar => ?_, fun hmem => nomatch hmem⟩
    have hle := hmarks.le node _ hfar
    omega
  le := fun node other hother => Nat.le_succ_of_le (hmarks.le node other hother)

section Follow

variable (hmarks : Marks search size distance seen near far) {node : Nat} (hnode : node ∈ near)
  {target : Nat}

include hmarks hnode

theorem follow_of_seen (hseen : target ∈ seen) :
    search.follow Course.note node target =
      if target ∈ far then { search with notes := search.notes.note (.steps node target) }
      else search := by
  rw [follow, hmarks.near node hnode, Option.getD_some, hmarks.meet_of_seen hseen]
  simp only [hmarks.far_iff]

theorem follow_of_new (hnew : target ∉ seen) (htarget : target < size) :
    search.follow Course.note node target =
      { search.meet Course.note (distance + 1) target with
        notes :=
          (search.notes.note (.meets target (distance + 1))).note (.steps node target) } := by
  have hdistance := hmarks.distance?_meet hnew htarget (distance + 1) target
  rw [if_pos rfl] at hdistance
  rw [follow, hmarks.near node hnode, Option.getD_some, if_pos hdistance,
    hmarks.meet_of_new hnew]

/-- What one node leads to. -/
theorem foldl_follow {targets : List Nat} (htargets : ∀ target ∈ targets, target < size) :
    let found := firstBy id seen targets
    let after := targets.foldl (follow Course.note node) search
    Marks after size distance (seen ++ found) near (far ++ found) ∧
      after.queue = search.queue ++ found ∧
      after.notes =
        { visited := search.notes.visited
          met := search.notes.met ++ found.map (·, distance + 1)
          steps := search.notes.steps ++
            (targets.filter (far ++ found).contains).map fun target => (node, target) } := by
  induction targets generalizing search seen far with
  | nil => simpa [firstBy] using hmarks
  | cons target rest ih =>
      rw [List.forall_mem_cons] at htargets
      rw [List.foldl_cons]
      by_cases hseen : target ∈ seen
      · have hfound : target ∉ firstBy id seen rest := fun hmem => (mem_firstBy_id.mp hmem).2 hseen
        rw [firstBy_id_cons_of_mem hseen, hmarks.follow_of_seen hnode hseen]
        by_cases hfar : target ∈ far
        · obtain ⟨hafter, hqueue, hnotes⟩ :=
            ih (hmarks.keep _ (search.notes.note (.steps node target))) htargets.2
          rw [if_pos hfar]
          refine ⟨hafter, hqueue, hnotes.trans ?_⟩
          simp [Course.note, hfar]
        · obtain ⟨hafter, hqueue, hnotes⟩ := ih hmarks htargets.2
          rw [if_neg hfar]
          refine ⟨hafter, hqueue, hnotes.trans ?_⟩
          simp [hfar, hfound]
      · have hmet := (hmarks.meet hseen htargets.1).keep
          (search.meet Course.note (distance + 1) target).queue
          ((search.notes.note (.meets target (distance + 1))).note (.steps node target))
        obtain ⟨hafter, hqueue, hnotes⟩ := ih hmet htargets.2
        rw [firstBy_id_cons_of_new hseen, hmarks.follow_of_new hnode hseen htargets.1]
        simp only [List.append_assoc, List.singleton_append] at hafter hqueue hnotes
        refine ⟨hafter, hqueue.trans ?_, hnotes.trans ?_⟩
        · simp [hmarks.meet_of_new hseen]
        · simp [Course.note]

end Follow

variable (hnext : ∀ node, next node ⊆ List.range size)

include hnext

/-- One level.  Whatever of the next level a node leads to is met before the search goes on. -/
theorem exists_run_level {now : List Nat} (hmarks : Marks search size distance seen near far)
    (hnow : now ⊆ near) (hqueue : search.queue = now ++ far) (fuel : Nat) :
    let found := scan next seen now
    ∃ after, run Course.note next (now.length + fuel) search = run Course.note next fuel after ∧
      Marks after size distance (seen ++ found) near (far ++ found) ∧
      after.queue = far ++ found ∧
      after.notes =
        { visited := search.notes.visited ++ now
          met := search.notes.met ++ found.map (·, distance + 1)
          steps := search.notes.steps ++ linksBetween next now (far ++ found) } := by
  induction now generalizing search seen far with
  | nil =>
      refine ⟨search, ?_, ?_, ?_, ?_⟩
      · rw [List.length_nil, Nat.zero_add]
      · simpa [scan] using hmarks
      · simpa [scan] using hqueue
      · simp [scan, linksBetween]
  | cons node rest ih =>
      rw [List.cons_subset] at hnow
      have htargets : ∀ target ∈ next node, target < size :=
        fun target hmem => List.mem_range.mp (hnext node hmem)
      obtain ⟨hmet, hlonger, hnoted⟩ :=
        (hmarks.keep (rest ++ far) (search.notes.note (.visits node))).foldl_follow hnow.1 htargets
      rw [List.append_assoc] at hlonger
      obtain ⟨after, hrun, hafter, hleft, hnotes⟩ := ih hmet hnow.2 hlonger
      refine ⟨after, ?_, ?_, ?_, ?_⟩
      · rw [List.length_cons, Nat.add_right_comm, run, hqueue]
        exact hrun
      · simpa [scan] using hafter
      · simpa [scan] using hleft
      · rw [hnotes, hnoted, linksBetween_cons_scan]
        simp [scan, Course.note]

end Marks

theorem run_of_queue_nil (hqueue : search.queue = []) (fuel : Nat) :
    run Course.note next fuel search = search := by
  cases fuel with
  | zero => rfl
  | succ fuel => rw [run, hqueue]

theorem length_scan_add_unseen_le (hnext : ∀ node, next node ⊆ List.range size)
    (seen near : List Nat) :
    (scan next seen near).length + unseen (List.range size) (seen ++ scan next seen near) ≤
      unseen (List.range size) seen := by
  apply unseen_append
  · rw [scan_eq_firstBy]
    exact nodup_firstBy_id _ _
  · intro node hnode
    obtain ⟨⟨before, -, hstep⟩, hnew⟩ := mem_scan.mp hnode
    exact ⟨hnext before hstep, hnew⟩

/-- The last level. -/
theorem Marks.notes_run_of_scan_eq_nil (hnext : ∀ node, next node ⊆ List.range size)
    (hmarks : Marks search size distance seen near []) (hqueue : search.queue = near)
    (hnone : scan next seen near = []) {fuel : Nat} (hfuel : near.length ≤ fuel) :
    (run Course.note next fuel search).notes =
      { search.notes with visited := search.notes.visited ++ near } := by
  obtain ⟨more, rfl⟩ := Nat.exists_eq_add_of_le hfuel
  obtain ⟨after, hrun, -, hleft, hnotes⟩ :=
    hmarks.exists_run_level hnext (List.Subset.refl near) (by rw [hqueue, List.append_nil]) more
  rw [hnone] at hleft hnotes
  rw [hrun, run_of_queue_nil hleft, hnotes]
  simp [linksBetween]

/-- All levels.  The fuel and the depth last for the nodes that are not seen yet. -/
theorem Marks.notes_run (hnext : ∀ node, next node ⊆ List.range size) {depth fuel : Nat}
    (hmarks : Marks search size distance seen near []) (hqueue : search.queue = near)
    (hfuel : near.length + unseen (List.range size) seen ≤ fuel)
    (hdepth : unseen (List.range size) seen ≤ depth) :
    let levels := scannedLevels next depth seen near
    (run Course.note next fuel search).notes =
      { visited := search.notes.visited ++ (near :: levels).flatten
        met := search.notes.met ++ levelDistances distance levels
        steps := search.notes.steps ++ levelLinks next (near :: levels) } := by
  induction depth generalizing search distance seen near fuel with
  | zero =>
      have hless := length_scan_add_unseen_le hnext seen near
      have hnone : scan next seen near = [] := List.length_eq_zero_iff.mp (by omega)
      rw [hmarks.notes_run_of_scan_eq_nil hnext hqueue hnone (by omega)]
      simp [scannedLevels, levelDistances, levelLinks]
  | succ depth ih =>
      rw [scannedLevels]
      split
      · next hnone =>
          rw [hmarks.notes_run_of_scan_eq_nil hnext hqueue hnone (by omega)]
          simp [levelDistances, levelLinks]
      · next hsome =>
          obtain ⟨more, rfl⟩ := Nat.exists_eq_add_of_le (Nat.le_of_add_right_le hfuel)
          obtain ⟨after, hrun, hafter, hleft, hnotes⟩ :=
            hmarks.exists_run_level hnext (List.Subset.refl near)
              (by rw [hqueue, List.append_nil]) more
          have hless := length_scan_add_unseen_le hnext seen near
          have hpos := List.length_pos_iff.mpr hsome
          rw [List.nil_append] at hafter hleft hnotes
          rw [hrun, ih hafter.turn hleft (by omega) (by omega), hnotes]
          simp [levelDistances, levelLinks]

theorem distance?_initial {start : Nat} (hstart : start < size) (notes : Course) (node : Nat) :
    (initial size start notes).distance? node = if start = node then some 0 else none := by
  rw [initial, distance?, Array.getD_eq_getD_getElem?, Array.getElem?_setIfInBounds]
  by_cases hsame : start = node
  · simp [hsame, hsame ▸ hstart]
  · by_cases hlt : node < size <;> simp [hsame, hlt]

theorem Marks.initial {start : Nat} (hstart : start < size) (notes : Course) :
    Marks (initial size start notes) size 0 [start] [start] [] where
  size_eq := (Array.size_setIfInBounds ..).trans Array.size_replicate
  isSome_iff := by
    intro node
    rw [distance?_initial hstart, List.mem_singleton]
    by_cases hsame : start = node
    · simp [hsame]
    · simp [hsame, Ne.symm hsame]
  near := by
    intro node hnode
    rw [distance?_initial hstart, if_pos (List.mem_singleton.mp hnode).symm]
  far_iff := by
    intro node
    rw [distance?_initial hstart]
    by_cases hsame : start = node <;> simp [hsame]
  le := by
    intro node other hother
    rw [distance?_initial hstart] at hother
    split at hother
    · exact Option.some.inj hother ▸ Nat.zero_le _
    · cases hother

end Levels

end DistanceSearch

/-- The levels of a search among the numbers below a size. -/
def reach (next : Nat → List Nat) (size start : Nat) : List (List Nat) :=
  scannedLevels next size [start] [start]

/-- The course of a search. -/
theorem notesOfSearch_course {next : Nat → List Nat} {size start : Nat}
    (hnext : ∀ node, next node ⊆ List.range size) (hstart : start < size) :
    notesOfSearch Course.note next size start {} =
      { visited := ([start] :: reach next size start).flatten
        met := levelDistances 0 (reach next size start)
        steps := levelLinks next ([start] :: reach next size start) } := by
  have hless := unseen_cons (List.mem_range.mpr hstart) List.not_mem_nil
  have hall := unseen_le (List.range size) ([] : List Nat)
  rw [List.length_range] at hall
  exact (DistanceSearch.Marks.initial hstart {}).notes_run hnext rfl
    (by rw [List.length_singleton]; omega) (by omega)

/-- Notes that can be read off the course of a search are the same if they are taken on the way. -/
theorem notesOfSearch_eq {ν : Type} {note : ν → SearchEvent → ν} {read : Course → ν}
    (hread : ∀ course event, read (course.note event) = note (read course) event)
    (next : Nat → List Nat) (size start : Nat) :
    notesOfSearch note next size start (read {}) =
      read (notesOfSearch Course.note next size start {}) :=
  congrArg DistanceSearch.notes (DistanceSearch.run_map hread next size (.initial size start {}))

end CodeGraph
