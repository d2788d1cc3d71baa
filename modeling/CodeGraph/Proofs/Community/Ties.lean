import CodeGraph.Proofs.Community.Links

namespace CodeGraph

/-! What ties two chunks together: the edges between them, in either direction, and the unknown
names that both refer to.  The network counts each of them once. -/

namespace Link

/-- The link is between the two names, in either order. -/
def joins (a b : String) (link : Link) : Bool :=
  (link.one == a && link.other == b) || (link.one == b && link.other == a)

theorem end?_of_joins {a b : String} (hne : a ≠ b) {link : Link} (hjoins : link.joins a b = true) :
    link.end? a = some (b, link.weight) := by
  simp only [joins, Bool.or_eq_true, Bool.and_eq_true, beq_iff_eq] at hjoins
  rcases hjoins with ⟨hone, hother⟩ | ⟨hone, hother⟩
  · rw [end?, if_pos hone, hother]
  · have hfar : link.one ≠ a := fun heq => hne (heq.symm.trans hone)
    rw [end?, if_neg hfar, if_pos hother, hone]

theorem joins_of_end? {a b : String} {weight : Nat} {link : Link}
    (hend : link.end? a = some (b, weight)) : link.joins a b = true := by
  simp only [joins, Bool.or_eq_true, Bool.and_eq_true, beq_iff_eq]
  rw [end?] at hend
  split at hend
  · next hone =>
      cases hend
      exact .inl ⟨hone, rfl⟩
  · split at hend
    · next hother =>
        cases hend
        exact .inr ⟨rfl, hother⟩
    · cases hend

theorem weightTo_filterMap_end? {a b : String} (hne : a ≠ b) (links : List Link) :
    weightTo (links.filterMap (end? a)) b = sumOf ((links.filter (joins a b)).map weight) := by
  induction links with
  | nil => rfl
  | cons link rest ih =>
      rw [weightTo] at ih ⊢
      by_cases hjoins : link.joins a b = true
      · rw [List.filterMap_cons_some (end?_of_joins hne hjoins), weightOn_cons, ih,
          List.filter_cons_of_pos hjoins, List.map_cons, sumOf_cons]
        simp
      · rw [List.filter_cons_of_neg hjoins, ← ih]
        cases hend : link.end? a with
        | none => rw [List.filterMap_cons_none hend]
        | some entry =>
            have hother : (entry.1 == b) = false := by
              rw [beq_eq_false_iff_ne]
              rintro rfl
              exact hjoins (joins_of_end? hend)
            rw [List.filterMap_cons_some hend, weightOn_cons, hother]
            simp

theorem mem_map_fst_filterMap_end? {a b : String} (hne : a ≠ b) {links : List Link} :
    b ∈ (links.filterMap (end? a)).map Prod.fst ↔ links.filter (joins a b) ≠ [] := by
  rw [List.mem_map, Ne, List.filter_eq_nil_iff]
  constructor
  · rintro ⟨entry, hentry, rfl⟩ hnone
    obtain ⟨link, hlink, hend⟩ := List.mem_filterMap.mp hentry
    exact hnone link hlink (joins_of_end? hend)
  · intro hsome
    push Not at hsome
    obtain ⟨link, hlink, hjoins⟩ := hsome
    exact ⟨(b, link.weight), List.mem_filterMap.mpr ⟨link, hlink, end?_of_joins hne hjoins⟩, rfl⟩

theorem filter_joins_map {a b name : String} (other : String) {rest : List String}
    (hnodup : rest.Nodup)
    (hjoins : ∀ next, joins a b { one := name, other := next, weight := 1 } = (next == other)) :
    ((rest.map fun next => { one := name, other := next, weight := 1 }).filter (joins a b)).map
      weight = if rest.contains other then [1] else [] := by
  rw [List.filter_map, List.map_map]
  have hsame : (joins a b ∘ fun next => { one := name, other := next, weight := 1 }) =
      fun next => next == other := funext hjoins
  rw [hsame, List.filter_beq, hnodup.count]
  by_cases hmem : other ∈ rest <;> simp [hmem]

/-- Two names in a list are paired once. -/
theorem filter_joins_ofPairs {a b : String} (hne : a ≠ b) {names : List String}
    (hnodup : names.Nodup) :
    ((ofPairs names).filter (joins a b)).map weight =
      if names.contains a && names.contains b then [1] else [] := by
  induction names with
  | nil => rfl
  | cons name rest ih =>
      rw [List.nodup_cons] at hnodup
      rw [ofPairs, List.filter_append, List.map_append, ih hnodup.2]
      have hback : b ≠ a := fun heq => hne heq.symm
      by_cases ha : name = a
      · subst ha
        rw [filter_joins_map b hnodup.2 fun next => by simp [joins, hne]]
        simp [hnodup.1, hback]
      · by_cases hb : name = b
        · subst hb
          rw [filter_joins_map a hnodup.2 fun next => by simp [joins, hback]]
          simp [hnodup.1, hne]
        · have hnone : (rest.map fun next => Link.mk name next 1).filter (joins a b) = [] := by
            rw [List.filter_eq_nil_iff]
            intro link hlink
            obtain ⟨next, -, rfl⟩ := List.mem_map.mp hlink
            simp [joins, ha, hb]
          have hfirst : a ≠ name := fun heq => ha heq.symm
          have hsecond : b ≠ name := fun heq => hb heq.symm
          rw [hnone]
          simp [hfirst, hsecond]

end Link

namespace Store

def edgesBetween (store : Store) (a b : String) : List Edge :=
  store.edges.filter fun edge =>
    (edge.source == a && edge.target == b) || (edge.source == b && edge.target == a)

def pointsTo (store : Store) (a b : String) : Bool :=
  store.edges.any fun edge => edge.source == a && edge.target == b

/-- The stored names that are no chunks and that two nodes both refer to. -/
def sharedPhantoms (store : Store) (a b : String) : List String :=
  (store.nodes.filter fun node =>
    !node.isChunk && (store.pointsTo a node.id && store.pointsTo b node.id)).map Node.id

theorem sharedPhantoms_eq_filter (store : Store) (a b : String) :
    store.sharedPhantoms a b =
      store.phantomIds.filter fun phantom =>
        store.pointsTo a phantom && store.pointsTo b phantom := by
  rw [phantomIds, List.filter_map, List.filter_filter, sharedPhantoms]
  simp only [Function.comp_apply, Bool.and_comm]

theorem mem_referrers {store : Store} {names : List String} {a phantom : String} :
    a ∈ Link.referrers store names phantom ↔ store.pointsTo a phantom = true ∧ a ∈ names := by
  rw [Link.referrers, List.mem_mergeSort, List.mem_filter, List.contains_iff_mem]
  refine and_congr_left fun _ => ?_
  simp only [callers, edgesTo, pointsTo, List.mem_eraseDups, List.mem_map, List.mem_filter,
    List.any_eq_true, Bool.and_eq_true, beq_iff_eq]
  constructor
  · rintro ⟨edge, ⟨hedge, htarget⟩, hsource⟩
    exact ⟨edge, hedge, hsource, htarget⟩
  · rintro ⟨edge, hedge, hsource, htarget⟩
    exact ⟨edge, ⟨hedge, htarget⟩, hsource⟩

theorem nodup_referrers (store : Store) (names : List String) (phantom : String) :
    (Link.referrers store names phantom).Nodup := by
  rw [Link.referrers, (List.mergeSort_perm _ _).nodup_iff]
  exact (nodup_eraseDups _).filter _

section Ties

variable {store : Store} {a b : String} (hne : a ≠ b) (ha : a ∈ store.networkNames)
  (hb : b ∈ store.networkNames)

include hne ha hb

theorem filter_joins_ofEdges :
    ((Link.ofEdges store.networkNames store.edges).filter (Link.joins a b)).map Link.weight =
      (store.edgesBetween a b).map Edge.weight := by
  rw [Link.ofEdges, List.filter_map, List.map_map, List.filter_filter, edgesBetween]
  congr 1
  apply List.filter_congr
  intro edge _
  -- an edge between the two is one between different chunks
  refine Bool.and_eq_left_iff_imp.mpr fun hjoins => ?_
  simp only [Function.comp_apply, Link.joins, Bool.or_eq_true, Bool.and_eq_true,
    beq_iff_eq] at hjoins
  have hback : b ≠ a := fun heq => hne heq.symm
  rcases hjoins with ⟨hsource, htarget⟩ | ⟨hsource, htarget⟩
  · simp [hsource, htarget, hne, ha, hb]
  · simp [hsource, htarget, hback, ha, hb]

theorem filter_joins_phantom (phantom : String) :
    ((Link.ofPairs (Link.referrers store store.networkNames phantom)).filter
      (Link.joins a b)).map Link.weight =
        if store.pointsTo a phantom && store.pointsTo b phantom then [1] else [] := by
  have hrefers : ∀ name ∈ store.networkNames,
      (Link.referrers store store.networkNames phantom).contains name =
        store.pointsTo name phantom := by
    intro name hname
    rw [Bool.eq_iff_iff, List.contains_iff_mem, mem_referrers]
    exact and_iff_left hname
  rw [Link.filter_joins_ofPairs hne (store.nodup_referrers store.networkNames phantom),
    hrefers a ha, hrefers b hb]

theorem weights_of_joins_perm :
    ((store.networkLinks.filter (Link.joins a b)).map Link.weight).Perm
      ((store.edgesBetween a b).map Edge.weight ++
        (store.sharedPhantoms a b).map fun _ => 1) := by
  rw [networkLinks, List.filter_append, List.map_append, filter_joins_ofEdges hne ha hb,
    List.filter_flatMap, List.map_flatMap]
  simp only [filter_joins_phantom hne ha hb]
  refine List.Perm.append_left _ ?_
  have hshared : ∀ phantoms : List String,
      (phantoms.flatMap fun phantom =>
        if store.pointsTo a phantom && store.pointsTo b phantom then [1] else []) =
      (phantoms.filter fun phantom =>
        store.pointsTo a phantom && store.pointsTo b phantom).map fun _ => 1 := by
    intro phantoms
    induction phantoms with
    | nil => rfl
    | cons phantom rest ih =>
        rw [List.flatMap_cons, ih, List.filter_cons]
        split <;> rfl
  rw [hshared, sharedPhantoms_eq_filter]
  exact ((List.mergeSort_perm _ _).filter _).map _

/-- The weight of the link between two chunks. -/
theorem sumOf_weight_joins :
    sumOf ((store.networkLinks.filter (Link.joins a b)).map Link.weight) =
      sumOf ((store.edgesBetween a b).map Edge.weight) + (store.sharedPhantoms a b).length := by
  rw [sumOf_perm (weights_of_joins_perm hne ha hb), sumOf_append, sumOf_map_one]

theorem filter_joins_ne_nil_iff :
    store.networkLinks.filter (Link.joins a b) ≠ [] ↔
      store.edgesBetween a b ≠ [] ∨ store.sharedPhantoms a b ≠ [] := by
  have hperm := weights_of_joins_perm hne ha hb
  have hnil : store.networkLinks.filter (Link.joins a b) = [] ↔
      store.edgesBetween a b = [] ∧ store.sharedPhantoms a b = [] := by
    rw [← List.map_eq_nil_iff (f := Link.weight), ← List.length_eq_zero_iff, hperm.length_eq,
      List.length_eq_zero_iff, List.append_eq_nil_iff, List.map_eq_nil_iff, List.map_eq_nil_iff]
  rw [Ne, hnil, not_and_or]

end Ties

/-! Rows of the network -/

theorem ne_of_mem_ofPairs {names : List String} (hnodup : names.Nodup) {link : Link}
    (hmem : link ∈ Link.ofPairs names) : link.one ≠ link.other := by
  induction names with
  | nil => cases hmem
  | cons name rest ih =>
      rw [List.nodup_cons] at hnodup
      rw [Link.ofPairs, List.mem_append, List.mem_map] at hmem
      rcases hmem with ⟨other, hother, rfl⟩ | hrest
      · intro hsame
        have hname : name = other := hsame
        exact hnodup.1 (hname ▸ hother)
      · exact ih hnodup.2 hrest

theorem ne_of_mem_networkLinks {store : Store} {link : Link} (hmem : link ∈ store.networkLinks) :
    link.one ≠ link.other := by
  rw [networkLinks, List.mem_append] at hmem
  rcases hmem with hedge | hphantom
  · obtain ⟨edge, hkept, rfl⟩ := List.mem_map.mp hedge
    have hends := (List.mem_filter.mp hkept).2
    simp only [Bool.and_eq_true, bne_iff_ne] at hends
    exact hends.1.1
  · obtain ⟨phantom, -, hpair⟩ := List.mem_flatMap.mp hphantom
    exact ne_of_mem_ofPairs (store.nodup_referrers store.networkNames phantom) hpair

theorem mem_neighboursOf {store : Store} {a b : String} {weight : Nat}
    (ha : a ∈ store.networkNames) (hb : b ∈ store.networkNames) :
    (b, weight) ∈ neighboursOf store.networkLinks a ↔
      a ≠ b ∧ (store.edgesBetween a b ≠ [] ∨ store.sharedPhantoms a b ≠ []) ∧
        weight = sumOf ((store.edgesBetween a b).map Edge.weight) +
          (store.sharedPhantoms a b).length := by
  rw [neighboursOf_eq_gather, mem_gather]
  by_cases hsame : a = b
  · subst hsame
    refine iff_of_false ?_ fun htied => htied.1 rfl
    rintro ⟨hlisted, -⟩
    obtain ⟨⟨self, known⟩, hentry, rfl⟩ := List.mem_map.mp hlisted
    obtain ⟨link, hlink, hend⟩ := List.mem_filterMap.mp hentry
    have hjoins := Link.joins_of_end? hend
    simp only [Link.joins, Bool.or_self, Bool.and_eq_true, beq_iff_eq] at hjoins
    exact ne_of_mem_networkLinks hlink (hjoins.1.trans hjoins.2.symm)
  · rw [Link.mem_map_fst_filterMap_end? hsame, Link.weightTo_filterMap_end? hsame,
      filter_joins_ne_nil_iff hsame ha hb, sumOf_weight_joins hsame ha hb]
    exact (and_iff_right hsame).symm

theorem edgesBetween_comm (store : Store) (a b : String) :
    store.edgesBetween a b = store.edgesBetween b a := by
  simp only [edgesBetween, Bool.or_comm]

theorem sharedPhantoms_comm (store : Store) (a b : String) :
    store.sharedPhantoms a b = store.sharedPhantoms b a := by
  simp only [sharedPhantoms, Bool.and_comm]

theorem mem_neighbours_network {store : Store} (hsound : store.Sound)
    (one other : Fin store.networkNames.length) (weight : Nat) :
    (other.val, weight) ∈ store.network.neighbours one ↔
      (store.networkNames[other], weight) ∈
        neighboursOf store.networkLinks store.networkNames[one] := by
  rw [neighbours_network one.isLt, List.mem_map]
  constructor
  · rintro ⟨⟨name, known⟩, hentry, hplace⟩
    rw [Prod.mk.injEq] at hplace
    obtain ⟨hplace, rfl⟩ := hplace
    have hname : store.networkNames[other] = name := by
      simp only [Fin.getElem_fin, ← hplace]
      exact List.getElem_idxOf _
    exact hname ▸ hentry
  · intro hentry
    exact ⟨_, hentry, Prod.ext ((nodup_networkNames hsound).idxOf_getElem _ _) rfl⟩

theorem mem_neighbours_iff_tied {store : Store} (hsound : store.Sound)
    (one other : Fin store.networkNames.length) (weight : Nat) :
    let a := store.networkNames[one]
    let b := store.networkNames[other]
    (other.val, weight) ∈ store.network.neighbours one ↔
      one ≠ other ∧ (store.edgesBetween a b ≠ [] ∨ store.sharedPhantoms a b ≠ []) ∧
        weight = sumOf ((store.edgesBetween a b).map Edge.weight) +
          (store.sharedPhantoms a b).length := by
  intro a b
  have ha : a ∈ store.networkNames := List.getElem_mem one.isLt
  have hb : b ∈ store.networkNames := List.getElem_mem other.isLt
  have hsame : a = b ↔ one = other :=
    (List.Nodup.getElem_inj_iff (nodup_networkNames hsound)).trans Fin.val_inj
  refine (mem_neighbours_network hsound one other weight).trans ((mem_neighboursOf ha hb).trans ?_)
  exact and_congr_left fun _ => not_congr hsame

theorem mem_neighbours_symm {store : Store} (hsound : store.Sound) {one other weight : Nat}
    (hmem : (other, weight) ∈ store.network.neighbours one) :
    (one, weight) ∈ store.network.neighbours other := by
  have hother : other < store.networkNames.length :=
    store.size_network ▸ store.bounded_network one _ hmem
  have hone : one < store.networkNames.length := by
    by_contra hout
    rw [Network.neighbours_of_size_le (by rw [size_network]; omega)] at hmem
    cases hmem
  obtain ⟨hne, htied, hweight⟩ :=
    (mem_neighbours_iff_tied hsound ⟨one, hone⟩ ⟨other, hother⟩ weight).mp hmem
  refine (mem_neighbours_iff_tied hsound ⟨other, hother⟩ ⟨one, hone⟩ weight).mpr ⟨hne.symm, ?_⟩
  rw [edgesBetween_comm, sharedPhantoms_comm]
  exact ⟨htied, hweight⟩

theorem nodup_map_fst_neighbours (store : Store) (node : Nat) :
    ((store.network.neighbours node).map Prod.fst).Nodup := by
  by_cases hlt : node < store.networkNames.length
  · have hkeys :
        ((neighboursOf store.networkLinks store.networkNames[node]).map Prod.fst).Nodup := by
      rw [neighboursOf_eq_gather]
      exact nodup_map_fst_gather _
    have hplaces : (store.network.neighbours node).map Prod.fst =
        ((neighboursOf store.networkLinks store.networkNames[node]).map Prod.fst).map
          store.networkNames.idxOf := by
      rw [neighbours_network hlt, List.map_map, List.map_map]
      rfl
    rw [hplaces]
    refine hkeys.map_on ?_
    intro one hone other hother hsame
    obtain ⟨entry, hentry, rfl⟩ := List.mem_map.mp hone
    exact (List.idxOf_inj (mem_networkNames_of_neighboursOf hentry)).mp hsame
  · rw [Network.neighbours_of_size_le (by rw [size_network]; omega)]
    exact List.nodup_nil

theorem pairwise_networkNames {store : Store} (hsound : store.Sound) :
    store.networkNames.Pairwise (· < ·) := by
  have hsorted : store.networkNames.Pairwise (· ≤ ·) := pairwise_mergeSort_by id _
  refine (hsorted.and (nodup_networkNames hsound)).imp ?_
  rintro one other ⟨hle, hne⟩
  exact String.not_le.mp fun hback => hne (String.le_antisymm hle hback)

theorem network_of_ties (history : List Mutation) :
    let store := ofHistory history
    let names := store.networkNames
    let network := store.network
    names.Perm store.chunkIds ∧ names.Pairwise (· < ·) ∧ network.size = names.length ∧
    -- rows list nodes, each once, and a link is in the rows of both its ends
    (∀ node, ((network.neighbours node).map Prod.fst).Nodup ∧
      ∀ entry ∈ network.neighbours node, entry.1 < network.size) ∧
    (∀ one other weight,
      (other, weight) ∈ network.neighbours one ↔ (one, weight) ∈ network.neighbours other) ∧
    ∀ (one other : Fin names.length) (weight : Nat),
      (other.val, weight) ∈ network.neighbours one ↔
        one ≠ other ∧
        (store.edgesBetween names[one] names[other] ≠ [] ∨
          store.sharedPhantoms names[one] names[other] ≠ []) ∧
        weight = sumOf ((store.edgesBetween names[one] names[other]).map Edge.weight) +
          (store.sharedPhantoms names[one] names[other]).length := by
  intro store names network
  have hsound : store.Sound := Sound.ofHistory history
  refine ⟨List.mergeSort_perm _ _, pairwise_networkNames hsound, store.size_network, ?_, ?_,
    mem_neighbours_iff_tied hsound⟩
  · exact fun node => ⟨store.nodup_map_fst_neighbours node, store.bounded_network node⟩
  · intro one other weight
    exact ⟨mem_neighbours_symm hsound, mem_neighbours_symm hsound⟩

end Store

end CodeGraph
