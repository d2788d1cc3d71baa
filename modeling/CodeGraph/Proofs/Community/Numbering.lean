import CodeGraph.Community.Detect
import CodeGraph.Proofs.Community.Partition
import CodeGraph.Proofs.Graph.History

namespace CodeGraph

/-! The numbers of communities follow the order of their smallest members. -/

namespace NameMap

variable {α : Type}

theorem insert_perm {map : NameMap α} {name : String} (hfresh : name ∉ map.map Prod.fst)
    (value : α) : (map.insert name value).Perm ((name, value) :: map) := by
  induction map with
  | nil => exact .refl _
  | cons entry rest ih =>
      simp only [List.map_cons, List.mem_cons, not_or] at hfresh
      rw [insert, if_neg hfresh.1]
      split
      · exact .refl _
      · exact ((ih hfresh.2).cons entry).trans (.swap _ _ _)

theorem insertAll_perm {map : NameMap α} {entries : List (String × α)}
    (hnodup : ((map ++ entries).map Prod.fst).Nodup) :
    (map.insertAll entries).Perm (map ++ entries) := by
  induction entries generalizing map with
  | nil =>
      rw [List.append_nil]
      exact .refl _
  | cons entry rest ih =>
      have hmiddle : (map ++ entry :: rest).Perm (entry :: map ++ rest) := List.perm_middle
      have hfirst := (hmiddle.map Prod.fst).nodup_iff.mp hnodup
      have hfresh : entry.1 ∉ map.map Prod.fst := by
        simp only [List.cons_append, List.map_cons, List.nodup_cons, List.map_append,
          List.mem_append, not_or] at hfirst
        exact hfirst.1.1
      have hinsert := (insert_perm hfresh entry.2).append_right rest
      refine (ih ((hinsert.map Prod.fst).nodup_iff.mpr hfirst)).trans ?_
      exact hinsert.trans hmiddle.symm

theorem ofList_perm {entries : List (String × α)} (hnodup : (entries.map Prod.fst).Nodup) :
    (ofList entries).Perm entries := by
  have hperm : (insertAll [] entries).Perm ([] ++ entries) := insertAll_perm hnodup
  exact hperm

end NameMap

/-! Maps with numbers in order -/

namespace Communities

def IsSmallest (communities : Communities) (number : Nat) (name : String) : Prop :=
  communities.get? name = some number ∧
    ∀ other, communities.get? other = some number → name ≤ other

/-- Each of the ids has one number.  The numbers are those below some count, none is left out, and
they grow with the smallest members of the communities. -/
structure Canonical (communities : Communities) (ids : List String) : Prop where
  keys : (communities.map Prod.fst).Perm ids
  numbers : ∃ count,
    (∀ number, (∃ name, communities.get? name = some number) ↔ number < count) ∧
    ∀ number, number + 1 < count → ∃ one other,
      communities.IsSmallest number one ∧ communities.IsSmallest (number + 1) other ∧ one < other

end Communities

theorem headD_mem {groups : List (List String)} (hnonempty : [] ∉ groups) {group : List String}
    (hmem : group ∈ groups) : group.headD "" ∈ group := by
  cases group with
  | nil => exact False.elim (hnonempty hmem)
  | cons first rest => exact List.mem_cons_self

/-- Sorted groups, none of them empty, in the order of their first members. -/
structure Ranked (groups : List (List String)) : Prop where
  nodup : groups.flatten.Nodup
  nonempty : [] ∉ groups
  sorted : ∀ group ∈ groups, group.Pairwise (· ≤ ·)
  heads : groups.Pairwise fun one other => one.headD "" < other.headD ""

theorem Ranked.headD_le {groups : List (List String)} (hranked : Ranked groups)
    {group : List String} (hmem : group ∈ groups) {name : String} (hname : name ∈ group) :
    group.headD "" ≤ name := by
  have hsorted := hranked.sorted group hmem
  cases group with
  | nil => cases hname
  | cons first rest =>
      rcases List.mem_cons.mp hname with rfl | hrest
      · exact String.le_refl _
      · exact List.rel_of_pairwise_cons hsorted hrest

theorem map_fst_numbering (groups : List (List String)) :
    (groups.zipIdx.flatMap fun entry => entry.1.map fun name => (name, entry.2)).map Prod.fst =
      groups.flatten := by
  simp only [List.map_flatMap, List.map_map, Function.comp_def, List.map_id']
  rw [List.flatMap_def, List.zipIdx_map_fst]

theorem get?_numbered {groups : List (List String)} (hnodup : groups.flatten.Nodup)
    {name : String} {number : Nat} :
    (numbered groups).get? name = some number ↔
      ∃ group, groups[number]? = some group ∧ name ∈ group := by
  rw [← map_fst_numbering] at hnodup
  have hperm := NameMap.ofList_perm hnodup
  rw [numbered, NameMap.get?_eq_some_iff ((hperm.map Prod.fst).nodup_iff.mpr hnodup),
    hperm.mem_iff, List.mem_flatMap]
  constructor
  · rintro ⟨⟨group, place⟩, hentry, hmem⟩
    obtain ⟨member, hmember, heq⟩ := List.mem_map.mp hmem
    cases heq
    exact ⟨group, List.mk_mem_zipIdx_iff_getElem?.mp hentry, hmember⟩
  · rintro ⟨group, hplace, hname⟩
    exact ⟨(group, number), List.mk_mem_zipIdx_iff_getElem?.mpr hplace,
      List.mem_map_of_mem hname⟩

theorem Ranked.isSmallest {groups : List (List String)} (hranked : Ranked groups) {number : Nat}
    {group : List String} (hplace : groups[number]? = some group) :
    (numbered groups).IsSmallest number (group.headD "") := by
  have hmem := List.mem_of_getElem? hplace
  refine ⟨(get?_numbered hranked.nodup).mpr ⟨group, hplace, headD_mem hranked.nonempty hmem⟩, ?_⟩
  intro other hother
  obtain ⟨same, hsame, hmember⟩ := (get?_numbered hranked.nodup).mp hother
  obtain rfl : group = same := Option.some.inj (hplace.symm.trans hsame)
  exact hranked.headD_le hmem hmember

theorem Ranked.canonical {groups : List (List String)} (hranked : Ranked groups) :
    (numbered groups).Canonical groups.flatten where
  keys := by
    have hnodup := hranked.nodup
    rw [← map_fst_numbering] at hnodup
    exact ((NameMap.ofList_perm hnodup).map Prod.fst).trans (.of_eq (map_fst_numbering groups))
  numbers := by
    refine ⟨groups.length, ?_, ?_⟩
    · intro number
      constructor
      · rintro ⟨name, hname⟩
        obtain ⟨group, hplace, -⟩ := (get?_numbered hranked.nodup).mp hname
        exact (List.getElem?_eq_some_iff.mp hplace).1
      · intro hlt
        exact ⟨_, (hranked.isSmallest (List.getElem?_eq_getElem hlt)).1⟩
    · intro number hlt
      have hfirst : number < groups.length := by omega
      refine ⟨groups[number].headD "", groups[number + 1].headD "",
        hranked.isSmallest (List.getElem?_eq_getElem hfirst),
        hranked.isSmallest (List.getElem?_eq_getElem hlt), ?_⟩
      exact List.pairwise_iff_getElem.mp hranked.heads number (number + 1) hfirst hlt (by omega)

/-! Groups of names -/

section Named

variable {names : List String} {groups : List (List Nat)}

theorem flatten_namedGroups_perm (hgroups : Partition groups names.length) :
    (namedGroups names groups).flatten.Perm names := by
  have hnames := hgroups.perm.map fun node => names.getD node ""
  rw [map_getD_range, List.map_flatten] at hnames
  have hinside : ((groups.map fun group =>
      (group.map fun node => names.getD node "").mergeSort).flatten).Perm
      (groups.map (List.map fun node => names.getD node "")).flatten := by
    rw [← List.flatMap_def, ← List.flatMap_def]
    exact List.Perm.flatMap_left groups fun group _ => List.mergeSort_perm _ _
  exact ((List.mergeSort_perm _ _).flatten.trans hinside).trans hnames

theorem mem_namedGroups {group : List String} (hmem : group ∈ namedGroups names groups) :
    ∃ nodes ∈ groups, group = (nodes.map fun node => names.getD node "").mergeSort := by
  obtain ⟨nodes, hnodes, rfl⟩ := List.mem_map.mp (List.mem_mergeSort.mp hmem)
  exact ⟨nodes, hnodes, rfl⟩

theorem pairwise_mergeSort_by {β : Type} (name : β → String) (items : List β) :
    (items.mergeSort fun one other => decide (name one ≤ name other)).Pairwise
      fun one other => name one ≤ name other := by
  have hsorted : (items.mergeSort fun one other => decide (name one ≤ name other)).Pairwise
      fun one other => decide (name one ≤ name other) = true := by
    apply List.pairwise_mergeSort
    · intro one other third hfirst hsecond
      rw [decide_eq_true_eq] at hfirst hsecond ⊢
      exact String.le_trans hfirst hsecond
    · intro one other
      simpa using String.le_total (name one) (name other)
  simpa using hsorted

theorem nil_not_mem_namedGroups (hnonempty : [] ∉ groups) : [] ∉ namedGroups names groups := by
  intro hmem
  obtain ⟨nodes, hnodes, hempty⟩ := mem_namedGroups hmem
  have hperm := List.mergeSort_perm (nodes.map fun node => names.getD node "")
    fun one other => decide (one ≤ other)
  rw [← hempty] at hperm
  have hnone : nodes = [] := List.map_eq_nil_iff.mp hperm.symm.eq_nil
  exact hnonempty (hnone ▸ hnodes)

theorem ranked_namedGroups (hnodup : names.Nodup) (hgroups : Partition groups names.length) :
    Ranked (namedGroups names groups) := by
  have hflat : (namedGroups names groups).flatten.Nodup :=
    (flatten_namedGroups_perm hgroups).nodup_iff.mpr hnodup
  have hnonempty : [] ∉ namedGroups names groups := nil_not_mem_namedGroups hgroups.nonempty
  refine ⟨hflat, hnonempty, ?_, ?_⟩
  · intro group hmem
    obtain ⟨nodes, -, rfl⟩ := mem_namedGroups hmem
    exact pairwise_mergeSort_by id _
  · -- groups have no member in common, so that no two of them start alike
    have hsorted : (namedGroups names groups).Pairwise fun one other =>
        one.headD "" ≤ other.headD "" := pairwise_mergeSort_by _ _
    refine (hsorted.and (List.nodup_flatten.mp hflat).2).imp_of_mem ?_
    intro one other hone hother hboth
    refine String.not_le.mp fun hle => ?_
    have hsame : one.headD "" = other.headD "" := String.le_antisymm hboth.1 hle
    exact hboth.2 (headD_mem hnonempty hone) (hsame ▸ headD_mem hnonempty hother)

end Named

namespace Store

theorem nodup_networkNames {store : Store} (hsound : store.Sound) : store.networkNames.Nodup := by
  refine (List.mergeSort_perm _ _).nodup_iff.mpr ?_
  exact hsound.ids_nodup.sublist (List.filter_sublist.map Node.id)

theorem size_network (store : Store) : store.network.size = store.networkNames.length := by
  simp [network]

section

variable {α σ : Type} [Sub α] [Mul α] [Div α] [NatCast α] [LT α] [DecidableLT α] [BEq α]

theorem partition_clusters_network (store : Store) (draw : σ → Nat → List Nat × σ) (source : σ)
    (resolution : α) :
    Partition (clusters draw source resolution store.network) store.networkNames.length :=
  store.size_network ▸ partition_clusters draw resolution source store.network

theorem canonical_communitiesBy {store : Store} (hsound : store.Sound)
    (draw : σ → Nat → List Nat × σ) (source : σ) (resolution : α) :
    (store.communitiesBy draw source resolution).Canonical store.chunkIds := by
  have hgroups := store.partition_clusters_network draw source resolution
  have hnumbers := (ranked_namedGroups (nodup_networkNames hsound) hgroups).canonical
  have hids : store.networkNames.Perm store.chunkIds := List.mergeSort_perm _ _
  exact ⟨hnumbers.keys.trans ((flatten_namedGroups_perm hgroups).trans hids), hnumbers.numbers⟩

end

theorem canonical_nil : Communities.Canonical [] [] where
  keys := .refl _
  numbers := ⟨0, by simp, by simp⟩

/-- A detection that succeeds numbers the chunks of the store and nothing else. -/
theorem canonical_detect (history : List Mutation) :
    let store := ofHistory history
    (∀ (resolution : Float) (seed : Nat) (detection : Detection),
      store.detect resolution seed = .ok detection →
        detection.communities.Canonical store.chunkIds) ∧
    -- in any arithmetic, and for any visiting orders
    ∀ (α σ : Type) [Sub α] [Mul α] [Div α] [NatCast α] [LT α] [DecidableLT α] [BEq α]
      (draw : σ → Nat → List Nat × σ) (source : σ) (resolution : α),
      Partition (clusters draw source resolution store.network) store.networkNames.length ∧
      (store.communitiesBy draw source resolution).Canonical store.chunkIds := by
  intro store
  have hsound : store.Sound := Sound.ofHistory history
  refine ⟨?_, ?_⟩
  · intro resolution seed detection hdetect
    unfold detect at hdetect
    split at hdetect
    · cases hdetect
    · split at hdetect
      · next hempty =>
          have hnames : store.networkNames = [] := List.isEmpty_iff.mp hempty
          have hids : store.networkNames.Perm store.chunkIds := List.mergeSort_perm _ _
          rw [hnames] at hids
          cases hdetect
          rw [hids.symm.eq_nil]
          exact canonical_nil
      · dsimp only at hdetect
        split at hdetect
        · cases hdetect
          exact canonical_communitiesBy hsound _ _ resolution
        · cases hdetect
  · intro α σ _ _ _ _ _ _ _ draw source resolution
    exact ⟨partition_clusters_network store draw source resolution,
      canonical_communitiesBy hsound draw source resolution⟩

end Store

end CodeGraph
