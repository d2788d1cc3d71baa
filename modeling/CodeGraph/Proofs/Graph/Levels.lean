import CodeGraph.Graph.Levels
import Mathlib.Data.List.Chain
import Mathlib.Data.List.Perm.Subperm

namespace CodeGraph

/-! Two searches that meet the same nodes: one collects a whole frontier before it marks anything,
and one marks while it scans a frontier. -/

section FirstBy

variable {α κ : Type} [BEq κ]

theorem map_key_firstBy (key : α → κ) (seen : List κ) (items : List α) :
    (firstBy key seen items).map key = firstBy id seen (items.map key) := by
  induction items generalizing seen with
  | nil => rfl
  | cons item rest ih =>
      simp only [List.map_cons, firstBy, id_eq]
      split
      · exact ih seen
      · rw [List.map_cons, ih]

variable [LawfulBEq κ]

theorem firstBy_id_eq_eraseDups (seen items : List κ) :
    firstBy id seen items = (items.removeAll seen).eraseDups := by
  induction items generalizing seen with
  | nil => rfl
  | cons item rest ih =>
      simp only [firstBy, id_eq, List.removeAll, List.filter_cons, List.contains_eq_mem] at ih ⊢
      by_cases hseen : item ∈ seen
      · simp only [hseen, decide_true, if_true, Bool.not_true,
          Bool.false_eq_true, if_false]
        simpa using ih seen
      · simp only [hseen, decide_false, Bool.false_eq_true, if_false,
          Bool.not_false, if_true, List.eraseDups_cons, List.filter_filter, ih]
        congr 3
        funext k
        by_cases hsame : k = item <;> simp [hsame]

theorem mem_firstBy_id {seen items : List κ} {k : κ} :
    k ∈ firstBy id seen items ↔ k ∈ items ∧ k ∉ seen := by
  rw [firstBy_id_eq_eraseDups, List.mem_eraseDups]
  simp [List.removeAll]

theorem firstBy_id_append (seen items others : List κ) :
    firstBy id seen (items ++ others) =
      firstBy id seen items ++ firstBy id (seen ++ firstBy id seen items) others := by
  simp only [firstBy_id_eq_eraseDups seen, firstBy_id_eq_eraseDups (seen ++ _),
    List.removeAll, List.filter_append, List.eraseDups_append, List.filter_filter]
  congr 2
  apply List.filter_congr
  intro k _
  by_cases hseen : k ∈ seen <;> simp [hseen]

theorem firstBy_id_cons_of_new {seen items : List κ} {item : κ} (hnew : item ∉ seen) :
    firstBy id seen (item :: items) = item :: firstBy id (seen ++ [item]) items := by
  have hfirst : firstBy id seen [item] = [item] := by
    simp [firstBy, hnew]
  rw [← List.singleton_append, firstBy_id_append, hfirst, List.singleton_append]

theorem firstBy_id_cons_of_mem {seen items : List κ} {item : κ} (hseen : item ∈ seen) :
    firstBy id seen (item :: items) = firstBy id seen items := by
  simp [firstBy, hseen]

theorem nodup_firstBy_id (seen items : List κ) : (firstBy id seen items).Nodup := by
  induction items generalizing seen with
  | nil => exact List.nodup_nil
  | cons item rest ih =>
      simp only [firstBy, id_eq]
      split
      · exact ih seen
      · refine List.nodup_cons.mpr ⟨?_, ih _⟩
        intro hmem
        exact (mem_firstBy_id.mp hmem).2 List.mem_cons_self

theorem nodup_eraseDups (items : List κ) : items.eraseDups.Nodup := by
  have hnodup := nodup_firstBy_id [] items
  rw [firstBy_id_eq_eraseDups] at hnodup
  simpa [List.removeAll] using hnodup

end FirstBy

variable {α : Type} [BEq α] [LawfulBEq α] {next : α → List α}

/-! Scanning a frontier -/

theorem scan_eq_firstBy (seen frontier : List α) :
    scan next seen frontier = firstBy id seen (frontier.flatMap next) := by
  induction frontier generalizing seen with
  | nil => rfl
  | cons node rest ih => rw [scan, List.flatMap_cons, firstBy_id_append, ih]

theorem scannedLevels_eq_levelsUpTo (depth : Nat) (seen frontier : List α) :
    scannedLevels next depth seen frontier =
      levelsUpTo (fun frontier => frontier.flatMap next) depth seen frontier := by
  induction depth generalizing seen frontier with
  | zero => rfl
  | succ depth ih => simp only [scannedLevels, levelsUpTo, scan_eq_firstBy, ih]

theorem mem_scan {seen frontier : List α} {node : α} :
    node ∈ scan next seen frontier ↔ (∃ before ∈ frontier, node ∈ next before) ∧ node ∉ seen := by
  rw [scan_eq_firstBy, mem_firstBy_id, List.mem_flatMap]

omit [LawfulBEq α] in
theorem scannedLevels_nil (depth : Nat) (seen : List α) :
    scannedLevels next depth seen [] = [] := by
  cases depth <;> rfl

/-- Each node of a level is one step behind another node, and was not seen before the levels. -/
theorem mem_of_mem_scannedLevels {depth : Nat} {seen frontier level : List α} {node : α}
    (hlevel : level ∈ scannedLevels next depth seen frontier) (hnode : node ∈ level) :
    (∃ before, node ∈ next before) ∧ node ∉ seen := by
  induction depth generalizing seen frontier with
  | zero => cases hlevel
  | succ depth ih =>
      rw [scannedLevels] at hlevel
      split at hlevel
      · cases hlevel
      · rcases List.mem_cons.mp hlevel with rfl | hlater
        · obtain ⟨⟨before, -, hstep⟩, hnew⟩ := mem_scan.mp hnode
          exact ⟨⟨before, hstep⟩, hnew⟩
        · obtain ⟨hstep, hnew⟩ := ih hlater
          exact ⟨hstep, fun hseen => hnew (List.mem_append_left _ hseen)⟩

/-- No node is in two levels, so that the first level with a node is the only one. -/
theorem findIdx?_scannedLevels_eq_some_iff {depth : Nat} {seen frontier : List α} {goal : α}
    {place : Nat} :
    (scannedLevels next depth seen frontier).findIdx? (·.contains goal) = some place ↔
      ∃ level, (scannedLevels next depth seen frontier)[place]? = some level ∧ goal ∈ level := by
  induction depth generalizing seen frontier place with
  | zero => simp [scannedLevels]
  | succ depth ih =>
      rw [scannedLevels]
      split
      · simp
      · rw [List.findIdx?_cons]
        split
        · next hfound =>
            rw [List.contains_iff_mem] at hfound
            cases place with
            | zero => simpa using hfound
            | succ place =>
                simp only [Option.some.injEq, Nat.reduceEqDiff, List.getElem?_cons_succ, false_iff]
                rintro ⟨level, hlevel, hgoal⟩
                have hnew := (mem_of_mem_scannedLevels (List.mem_of_getElem? hlevel) hgoal).2
                exact hnew (List.mem_append_right _ hfound)
        · next hmissing =>
            rw [List.contains_iff_mem] at hmissing
            cases place with
            | zero => simpa using hmissing
            | succ place => simpa using ih

/-! What is left to see -/

/-- How many of the nodes that can be met are not seen. -/
def unseen (nodes seen : List α) : Nat :=
  (nodes.removeAll seen).length

omit [LawfulBEq α] in
theorem unseen_le (nodes seen : List α) : unseen nodes seen ≤ nodes.length :=
  List.length_filter_le _ _

theorem unseen_anti {nodes seen more : List α} (hmore : seen ⊆ more) :
    unseen nodes more ≤ unseen nodes seen := by
  apply List.Sublist.length_le
  apply List.monotone_filter_right
  intro node hnode
  simp only [List.elem_eq_mem, Bool.not_eq_true', decide_eq_false_iff_not] at hnode ⊢
  exact fun hseen => hnode (hmore hseen)

theorem unseen_append {nodes seen found : List α} (hnodup : found.Nodup)
    (hfound : ∀ node ∈ found, node ∈ nodes ∧ node ∉ seen) :
    found.length + unseen nodes (seen ++ found) ≤ unseen nodes seen := by
  have hsplit := List.length_eq_length_filter_add (l := nodes.removeAll seen) found.contains
  have hmet : found.length ≤ ((nodes.removeAll seen).filter found.contains).length := by
    apply (hnodup.subperm ?_).length_le
    intro node hnode
    simp [List.removeAll, hnode, hfound node hnode]
  have hleft : (nodes.removeAll seen).filter (fun node => !found.contains node) =
      nodes.removeAll (seen ++ found) := by
    simp only [List.removeAll, List.filter_filter]
    apply List.filter_congr
    intro node _
    simp [Bool.and_comm]
  rw [hleft] at hsplit
  unfold unseen
  omega

theorem unseen_cons {nodes seen : List α} {node : α} (hnode : node ∈ nodes) (hnew : node ∉ seen) :
    unseen nodes (node :: seen) < unseen nodes seen := by
  have happend : [node].length + unseen nodes (seen ++ [node]) ≤ unseen nodes seen := by
    apply unseen_append (by simp)
    intro other hother
    rw [List.mem_singleton.mp hother]
    exact ⟨hnode, hnew⟩
  have hsame : unseen nodes (node :: seen) ≤ unseen nodes (seen ++ [node]) :=
    unseen_anti (by simp)
  rw [List.length_singleton] at happend
  omega

end CodeGraph
