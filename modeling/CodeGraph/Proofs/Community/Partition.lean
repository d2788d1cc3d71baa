import CodeGraph.Community.Clusters
import CodeGraph.Proofs.Graph.Condensation
import CodeGraph.Proofs.Graph.Levels

namespace CodeGraph

/-! Clusters are a partition of the nodes.  Moves and levels only change which nodes are together,
whatever is found to be a gain. -/

/-! What every visit keeps is kept by all of them. -/

section Visits

variable {α : Type} [Sub α] [Mul α] [Div α] [NatCast α] [LT α] [DecidableLT α] [BEq α]

section

variable {network : Network} {resolution : α} {total : Nat} (keeps : Assignment → Prop)
variable (hvisit : ∀ assignment moved node, keeps assignment →
  keeps (visit network resolution total (assignment, moved) node).1)

include hvisit

theorem foldl_visit_induction (order : List Nat) (moved : Bool) {assignment : Assignment}
    (hkeeps : keeps assignment) :
    keeps (order.foldl (visit network resolution total) (assignment, moved)).1 := by
  induction order generalizing assignment moved with
  | nil => exact hkeeps
  | cons node rest ih => exact ih _ (hvisit assignment moved node hkeeps)

theorem settleUpTo_induction (order : List Nat) (rounds : Nat) {assignment : Assignment}
    {moved : Bool} (hkeeps : keeps assignment) :
    keeps (settleUpTo network resolution total order rounds (assignment, moved)).1 := by
  induction rounds generalizing assignment moved with
  | zero => exact hkeeps
  | succ rounds ih =>
      have hround := foldl_visit_induction keeps hvisit order false hkeeps
      rw [settleUpTo]
      split
      · next next hmoved =>
          rw [hmoved] at hround
          exact ih hround
      · next last hstill => rwa [hstill] at hround

theorem settle_induction (order : List Nat) (hstart : keeps (.singletons network)) :
    keeps (settle network resolution total order).1 :=
  settleUpTo_induction keeps hvisit order roundLimit hstart

end

theorem size_community_visit (network : Network) (resolution : α) (total : Nat)
    (assignment : Assignment) (moved : Bool) (node : Nat) :
    (visit network resolution total (assignment, moved) node).1.community.size =
      assignment.community.size :=
  Array.size_setIfInBounds

theorem size_community_settle (network : Network) (resolution : α) (total : Nat)
    (order : List Nat) :
    (settle network resolution total order).1.community.size = network.size := by
  apply settle_induction fun assignment => assignment.community.size = network.size
  · intro assignment moved node hsize
    rw [size_community_visit, hsize]
  · exact Array.size_range

end Visits

/-! Groups that are merged by an assignment -/

namespace Assignment

theorem nodup_labels (assignment : Assignment) : assignment.labels.Nodup :=
  nodup_eraseDups _

theorem mem_members {assignment : Assignment} {label node : Nat} :
    node ∈ assignment.members label ↔
      node < assignment.community.size ∧ assignment.communityOf node = label := by
  simp [members]

theorem nodup_members (assignment : Assignment) (label : Nat) :
    (assignment.members label).Nodup :=
  List.nodup_range.filter _

theorem mem_labels {assignment : Assignment} {label : Nat} :
    label ∈ assignment.labels ↔ ∃ node, node ∈ assignment.members label := by
  simp only [labels, List.mem_eraseDups, Array.mem_toList_iff, Array.mem_iff_getElem, mem_members,
    communityOf]
  constructor
  · rintro ⟨node, hlt, hlabel⟩
    exact ⟨node, hlt, by simp [hlt, hlabel]⟩
  · rintro ⟨node, hlt, hlabel⟩
    exact ⟨node, hlt, by simpa [hlt] using hlabel⟩

theorem communityOf_mem_labels {assignment : Assignment} {node : Nat}
    (hlt : node < assignment.community.size) :
    assignment.communityOf node ∈ assignment.labels :=
  mem_labels.mpr ⟨node, mem_members.mpr ⟨hlt, rfl⟩⟩

/-- Every node is a member of one community. -/
theorem flatMap_members_perm (assignment : Assignment) :
    (assignment.labels.flatMap assignment.members).Perm
      (List.range assignment.community.size) := by
  have hnodup : (assignment.labels.flatMap assignment.members).Nodup := by
    rw [List.nodup_flatMap]
    refine ⟨fun label _ => assignment.nodup_members label, ?_⟩
    refine assignment.nodup_labels.imp ?_
    intro label other hne node hnode hother
    exact hne ((mem_members.mp hnode).2.symm.trans (mem_members.mp hother).2)
  rw [List.perm_ext_iff_of_nodup hnodup List.nodup_range]
  intro node
  simp only [List.mem_flatMap, mem_members, List.mem_range]
  constructor
  · rintro ⟨label, -, hlt, -⟩
    exact hlt
  · intro hlt
    exact ⟨assignment.communityOf node, communityOf_mem_labels hlt, hlt, rfl⟩

theorem flatten_merge_perm {assignment : Assignment} {groups : List (List Nat)}
    (hlength : groups.length = assignment.community.size) :
    (assignment.merge groups).flatten.Perm groups.flatten := by
  have hgroups : (List.range groups.length).flatMap (fun node => groups.getD node []) =
      groups.flatten := by
    rw [List.flatMap_def, map_getD_range]
  have hmerge : (assignment.merge groups).flatten =
      (assignment.labels.flatMap assignment.members).flatMap fun node => groups.getD node [] := by
    rw [List.flatMap_assoc, merge, List.flatMap_def]
  rw [hmerge, ← hgroups, hlength]
  exact assignment.flatMap_members_perm.flatMap_right _

theorem nil_not_mem_merge {assignment : Assignment} {groups : List (List Nat)}
    (hlength : groups.length = assignment.community.size) (hnonempty : [] ∉ groups) :
    [] ∉ assignment.merge groups := by
  intro hmem
  obtain ⟨label, hlabel, hempty⟩ := List.mem_map.mp hmem
  obtain ⟨node, hnode⟩ := mem_labels.mp hlabel
  have hlt : node < groups.length := hlength ▸ (mem_members.mp hnode).1
  have hgroup : groups.getD node [] = [] := List.flatMap_eq_nil_iff.mp hempty node hnode
  apply hnonempty
  rw [← hgroup, List.getD_eq_getElem?_getD, List.getElem?_eq_getElem hlt, Option.getD_some]
  exact List.getElem_mem hlt

theorem length_merge (assignment : Assignment) (groups : List (List Nat)) :
    (assignment.merge groups).length = assignment.labels.length :=
  List.length_map _

theorem size_contract (assignment : Assignment) (network : Network) :
    (assignment.contract network).size = assignment.labels.length := by
  simp [contract]

end Assignment

/-- Every node below the size is in one group, and no group is empty. -/
structure Partition (groups : List (List Nat)) (size : Nat) : Prop where
  perm : groups.flatten.Perm (List.range size)
  nonempty : [] ∉ groups

theorem partition_singletonGroups (size : Nat) : Partition (singletonGroups size) size where
  perm := by
    have hflatten : (singletonGroups size).flatten = List.range size := by
      rw [singletonGroups, ← List.flatMap_def, List.flatMap_singleton']
    rw [hflatten]
  nonempty := by simp [singletonGroups]

theorem length_singletonGroups (size : Nat) : (singletonGroups size).length = size := by
  simp [singletonGroups]

theorem Partition.merge {groups : List (List Nat)} {size : Nat} (hgroups : Partition groups size)
    {assignment : Assignment} (hlength : groups.length = assignment.community.size) :
    Partition (assignment.merge groups) size where
  perm := (Assignment.flatten_merge_perm hlength).trans hgroups.perm
  nonempty := Assignment.nil_not_mem_merge hlength hgroups.nonempty

section

variable {α σ : Type} [Sub α] [Mul α] [Div α] [NatCast α] [LT α] [DecidableLT α] [BEq α]
variable (draw : σ → Nat → List Nat × σ) (resolution : α)

theorem partition_mergeUpTo (total fuel : Nat) (source : σ) {network : Network}
    {groups : List (List Nat)} (hlength : groups.length = network.size) {size : Nat}
    (hgroups : Partition groups size) :
    Partition (mergeUpTo draw resolution total fuel source network groups) size := by
  induction fuel generalizing source network groups with
  | zero => exact hgroups
  | succ fuel ih =>
      rw [mergeUpTo]
      split
      · exact hgroups
      · dsimp only
        split
        · exact hgroups
        · next assignment hsettled =>
            split
            · exact hgroups
            · have hsize :=
                size_community_settle network resolution total (draw source network.size).1
              rw [hsettled] at hsize
              have hsame : groups.length = assignment.community.size := hlength.trans hsize.symm
              apply ih
              · rw [Assignment.length_merge, Assignment.size_contract]
              · exact hgroups.merge hsame

theorem partition_clusters (source : σ) (network : Network) :
    Partition (clusters draw source resolution network) network.size := by
  rw [clusters]
  split
  · exact partition_singletonGroups _
  · exact partition_mergeUpTo draw resolution _ _ source (length_singletonGroups _)
      (partition_singletonGroups _)

end

end CodeGraph
