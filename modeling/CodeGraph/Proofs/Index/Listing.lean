import CodeGraph.Proofs.Index.Occurrences

namespace CodeGraph

/-! The order in which edges are listed.  New edges come last, and as long as none is removed the
order is that of their insertion.  Each edge that is removed turns the edges behind it by one
place. -/

inductive EdgeChange where
  | add (edge : Edge)
  | removeFrom (id : String)

/-- The source, the target and the relation of an edge. -/
abbrev EdgeKey := String × String × Relation

namespace EdgeChange

/-- The keys in the order of their insertion. -/
def insert (keys : List EdgeKey) : EdgeChange → List EdgeKey
  | add edge => if edge.key ∈ keys then keys else keys ++ [edge.key]
  | removeFrom id => keys.filter fun key => key.1 ≠ id

/-- The keys in the order of their places. -/
def arrange (keys : List EdgeKey) : EdgeChange → List EdgeKey
  | add edge => if edge.key ∈ keys then keys else keys ++ [edge.key]
  | removeFrom id => Store.swept (fun key => key.1 = id) keys []

/-- At most one of the keys behind the first one that is removed stays. -/
def keepsOrder (keys : List EdgeKey) : EdgeChange → Prop
  | add _ => True
  | removeFrom id =>
      ((keys.dropWhile fun key => key.1 ≠ id).filter fun key => key.1 ≠ id).length ≤ 1

/-- The order is kept by each of the changes in turn. -/
def KeepOrder : List EdgeKey → List EdgeChange → Prop
  | _, [] => True
  | keys, change :: rest => change.keepsOrder keys ∧ KeepOrder (change.arrange keys) rest

end EdgeChange

namespace Store

def change (store : Store) : EdgeChange → Store
  | .add edge => store.addEdge edge
  | .removeFrom id => store.removeEdgesFrom id

/-! Removals -/

theorem map_turned {α β : Type} (f : α → β) (items : List α) :
    (turned items).map f = turned (items.map f) := by
  rw [turned, turned, List.map_append, List.map_dropLast, List.getLast?_map]
  cases items.getLast? <;> rfl

theorem map_swept {α β : Type} (f : α → β) (leaves : β → Bool) (items back : List α) :
    (swept (fun item => leaves (f item)) items back).map f =
      swept leaves (items.map f) (back.map f) := by
  induction items with
  | nil => rfl
  | cons item rest ih =>
      rw [swept, List.foldr_cons, List.map_cons, swept, List.foldr_cons]
      cases leaves (f item) with
      | true => exact (map_turned f _).trans (congrArg turned ih)
      | false => exact congrArg (f item :: ·) ih

theorem turned_of_length_le {α : Type} {items : List α} (hlength : items.length ≤ 1) :
    turned items = items := by
  match items with
  | [] => rfl
  | [item] => rfl

theorem eq_of_perm_of_length_le {α : Type} {items others : List α} (hperm : items.Perm others)
    (hlength : others.length ≤ 1) : items = others := by
  cases others with
  | nil => exact hperm.eq_nil
  | cons other rest =>
      cases rest with
      | nil => exact List.perm_singleton.mp hperm
      | cons second rest => simp at hlength

theorem swept_of_length_le {α : Type} {leaves : α → Bool} {items : List α}
    (hlength : ((items.dropWhile fun item => !leaves item).filter
      fun item => !leaves item).length ≤ 1) :
    swept leaves items [] = items.filter fun item => !leaves item := by
  induction items with
  | nil => rfl
  | cons item rest ih =>
      rw [swept, List.foldr_cons, List.filter_cons]
      rw [List.dropWhile_cons] at hlength
      cases hleaves : leaves item with
      | false =>
          rw [hleaves] at hlength
          exact congrArg (item :: ·) (ih hlength)
      | true =>
          -- what stays is one item at most, and there is no other order of it
          rw [hleaves, if_neg (by simp), List.filter_cons, hleaves] at hlength
          have hrest := swept_perm leaves rest []
          rw [List.append_nil] at hrest
          have hshort : (swept leaves rest []).length ≤ 1 := hrest.length_eq ▸ hlength
          exact (turned_of_length_le hshort).trans (eq_of_perm_of_length_le hrest hlength)

/-- Where no item leaves, all stay in place. -/
theorem swept_of_forall {α : Type} {leaves : α → Bool} {items : List α}
    (hstay : ∀ item ∈ items, leaves item = false) : swept leaves items [] = items := by
  induction items with
  | nil => rfl
  | cons item rest ih =>
      rw [swept, List.foldr_cons, hstay item List.mem_cons_self]
      exact congrArg (item :: ·) (ih fun other hmem => hstay other (List.mem_cons_of_mem item hmem))

/-! Changes -/

theorem map_key_putEdge (edge : Edge) (edges : List Edge) :
    (putEdge edge edges).map Edge.key = (EdgeChange.add edge).arrange (edges.map Edge.key) := by
  rw [putEdge_eq_put, Keyed.map_key_put joinsKey_absorb, EdgeChange.arrange]
  by_cases hknown : edge.key ∈ edges.map Edge.key
  · rw [if_pos hknown, if_pos hknown]
  · rw [if_neg hknown, if_neg hknown]

theorem map_key_change (store : Store) (change : EdgeChange) :
    (store.change change).edges.map Edge.key = change.arrange (store.edges.map Edge.key) := by
  cases change with
  | add edge =>
      rw [Store.change, edges_addEdge, map_key_putEdge]
  | removeFrom id =>
      rw [Store.change, edges_removeEdgesFrom]
      exact map_swept Edge.key (fun key => key.1 = id) store.edges []

theorem map_key_foldl_change (store : Store) (changes : List EdgeChange) :
    (changes.foldl change store).edges.map Edge.key =
      changes.foldl EdgeChange.arrange (store.edges.map Edge.key) :=
  (List.foldl_hom (fun store => store.edges.map Edge.key)
    fun store change => (map_key_change store change).symm).symm

theorem foldl_arrange_of_keepOrder {keys : List EdgeKey} {changes : List EdgeChange}
    (hkeep : EdgeChange.KeepOrder keys changes) :
    changes.foldl EdgeChange.arrange keys = changes.foldl EdgeChange.insert keys := by
  induction changes generalizing keys with
  | nil => rfl
  | cons change rest ih =>
      have hchange : change.arrange keys = change.insert keys := by
        cases change with
        | add edge => rfl
        | removeFrom id =>
            have hlength := hkeep.1
            simp only [EdgeChange.keepsOrder, ne_eq, decide_not] at hlength
            simp only [EdgeChange.arrange, EdgeChange.insert, ne_eq, decide_not]
            exact swept_of_length_le hlength
      rw [List.foldl_cons, List.foldl_cons, ih hkeep.2, hchange]

/-! Lists of edges -/

theorem map_key_edgesFrom (store : Store) (id : String) :
    (store.edgesFrom id).map Edge.key =
      (store.edges.map Edge.key).filter fun key => key.1 = id := by
  rw [edgesFrom, List.filter_map]
  rfl

theorem map_key_edgesTo (store : Store) (id : String) :
    (store.edgesTo id).map Edge.key =
      (store.edges.map Edge.key).filter fun key => key.2.1 = id := by
  rw [edgesTo, List.filter_map]
  rfl

theorem callees_eq (store : Store) (id : String) :
    store.callees id = (((store.edgesFrom id).map Edge.key).map fun key => key.2.1).eraseDups := by
  rw [callees, List.map_map]
  rfl

theorem callers_eq (store : Store) (id : String) :
    store.callers id = (((store.edgesTo id).map Edge.key).map Prod.fst).eraseDups := by
  rw [callers, List.map_map]
  rfl

/-! Runs -/

/-- What adding chunks does to the edges. -/
def runChanges (index : SymbolIndex) (entries : List Extracted) : List EdgeChange :=
  entries.flatMap fun entry =>
    .removeFrom entry.1.id :: (newEdges index entry).map EdgeChange.add

theorem foldl_change_runChanges (index : SymbolIndex) (store : Store) (entries : List Extracted) :
    (runChanges index entries).foldl change store = entries.foldl (refresh index) store := by
  have hentry : ∀ store entry,
      (EdgeChange.removeFrom entry.1.id :: (newEdges index entry).map EdgeChange.add).foldl
        change store = refresh index store entry := by
    intro store entry
    rw [List.foldl_cons, List.foldl_map]
    rfl
  rw [runChanges, List.foldl_flatMap]
  simp only [hentry]

theorem map_key_addExtracted (store : Store) (chunks : List Chunk)
    (extracted : List (Option (List Reference))) :
    (store.addExtracted chunks extracted).1.edges.map Edge.key =
      (runChanges (.ofChunks chunks) (chunks.zip extracted)).foldl EdgeChange.arrange
        (store.edges.map Edge.key) := by
  have hchunks := edges_foldl_addChunk store chunks
  rw [addExtracted_eq, ← foldl_change_runChanges, map_key_foldl_change, hchunks]

/-! The first run -/

theorem removeEdgesFrom_of_forall {store : Store} {id : String}
    (hnone : ∀ edge ∈ store.edges, edge.source ≠ id) :
    (store.removeEdgesFrom id).edges = store.edges := by
  rw [edges_removeEdgesFrom]
  exact swept_of_forall fun edge hmem => decide_eq_false (hnone edge hmem)

/-- As long as no edge starts at the chunks to come, nothing is removed. -/
theorem edges_foldl_refresh (index : SymbolIndex) {entries : List Extracted}
    (hstarts : ∀ entry ∈ entries, Reference.StartsAtChunk entry)
    (hdistinct : (entries.map (·.1.id)).Nodup) {store : Store}
    (hfresh : ∀ edge ∈ store.edges, edge.source ∉ entries.map (·.1.id)) :
    (entries.foldl (refresh index) store).edges =
      store.edges ++ entries.flatMap (builtEdges index) := by
  induction entries generalizing store with
  | nil => simp
  | cons entry rest ih =>
      rw [List.map_cons, List.nodup_cons] at hdistinct
      have hentry := hstarts entry List.mem_cons_self
      have hkept : (refresh index store entry).edges = store.edges ++ builtEdges index entry := by
        rw [edges_refresh hentry, removeEdgesFrom_of_forall]
        intro edge hmem hsource
        exact hfresh edge hmem (hsource ▸ List.mem_cons_self)
      rw [List.foldl_cons, ih (fun other hmem => hstarts other (List.mem_cons_of_mem entry hmem))
        hdistinct.2, hkept, List.flatMap_cons, List.append_assoc]
      intro edge hmem hlater
      rw [hkept, List.mem_append] at hmem
      rcases hmem with hold | hnew
      · exact hfresh edge hold (List.mem_cons_of_mem _ hlater)
      · rw [source_of_mem_builtEdges hentry hnew] at hlater
        exact hdistinct.1 hlater

theorem map_key_builtEdges_eraseDups (index : SymbolIndex) (entry : Extracted) :
    (builtEdges index entry).map Edge.key =
      ((newEdges index entry).map Edge.key).eraseDups :=
  Keyed.map_key_putAll joinsKey_absorb _

theorem lastBuiltEdges_of_nodup (index : SymbolIndex) {entries : List Extracted}
    (hdistinct : (entries.map (·.1.id)).Nodup) :
    lastBuiltEdges index entries = entries.flatMap (builtEdges index) := by
  induction entries with
  | nil => rfl
  | cons entry rest ih =>
      rw [List.map_cons, List.nodup_cons] at hdistinct
      rw [lastBuiltEdges, if_pos hdistinct.1, ih hdistinct.2, List.flatMap_cons]

section First

variable {chunks : List Chunk} {extracted : List (Option (List Reference))}
variable (hlength : extracted.length = chunks.length)
variable (hstarts : ∀ entry ∈ chunks.zip extracted, Reference.StartsAtChunk entry)
variable (hdistinct : (chunks.map Chunk.id).Nodup)

include hlength hstarts hdistinct

theorem edges_addExtracted_empty :
    (({} : Store).addExtracted chunks extracted).1.edges =
      (chunks.zip extracted).flatMap (builtEdges (.ofChunks chunks)) := by
  have hchunks : (chunks.foldl addChunk {}).edges = [] := edges_foldl_addChunk {} chunks
  rw [← map_id_zip hlength] at hdistinct
  rw [addExtracted_eq, edges_foldl_refresh _ hstarts hdistinct, hchunks, List.nil_append]
  intro edge hmem
  rw [hchunks] at hmem
  cases hmem

theorem edgesFrom_addExtracted_empty {entry : Extracted} (hentry : entry ∈ chunks.zip extracted) :
    (({} : Store).addExtracted chunks extracted).1.edgesFrom entry.1.id =
      builtEdges (.ofChunks chunks) entry := by
  rw [edgesFrom, edges_addExtracted_empty hlength hstarts hdistinct]
  rw [← map_id_zip hlength] at hdistinct
  rw [← lastBuiltEdges_of_nodup _ hdistinct]
  exact filter_lastBuiltEdges hdistinct hstarts hentry

end First

/-- Edges are listed by their places, and each change tells where these are.  They stand in the
order of their insertion if every removal leaves at most one edge behind the first one that it
takes, and after the first run into an empty store. -/
theorem edges_listed_by_place (changes : List EdgeChange) :
    let store := changes.foldl change {}
    let keys := changes.foldl EdgeChange.arrange []
    (∀ id, (store.edgesFrom id).map Edge.key = keys.filter fun key => key.1 = id) ∧
    (∀ id, (store.edgesTo id).map Edge.key = keys.filter fun key => key.2.1 = id) ∧
    (∀ id, store.callees id =
      ((keys.filter fun key => key.1 = id).map fun key => key.2.1).eraseDups) ∧
    (∀ id, store.callers id = ((keys.filter fun key => key.2.1 = id).map Prod.fst).eraseDups) ∧
    (EdgeChange.KeepOrder [] changes → keys = changes.foldl EdgeChange.insert []) ∧
    -- a run into any store, as often as it is repeated
    (∀ (read? : String → Option String) (before : Store) (chunks : List Chunk),
      (before.addChunks read? chunks).1.edges.map Edge.key =
        (runChanges (.ofChunks chunks) (chunks.zip (Reference.ofChunks read? [] chunks))).foldl
          EdgeChange.arrange (before.edges.map Edge.key)) ∧
    -- the first run
    ∀ (read? : String → Option String) (chunks : List Chunk), (chunks.map Chunk.id).Nodup →
      ∀ entry ∈ chunks.zip (Reference.ofChunks read? [] chunks),
        ((({} : Store).addChunks read? chunks).1.edgesFrom entry.1.id).map Edge.key =
          ((newEdges (.ofChunks chunks) entry).map Edge.key).eraseDups := by
  intro store keys
  have hkeys : store.edges.map Edge.key = keys := map_key_foldl_change {} changes
  refine ⟨?_, ?_, ?_, ?_, foldl_arrange_of_keepOrder, ?_, ?_⟩
  · intro id
    rw [map_key_edgesFrom, hkeys]
  · intro id
    rw [map_key_edgesTo, hkeys]
  · intro id
    rw [callees_eq, map_key_edgesFrom, hkeys]
  · intro id
    rw [callers_eq, map_key_edgesTo, hkeys]
  · intro read? before chunks
    exact map_key_addExtracted before chunks _
  · intro read? chunks hdistinct entry hentry
    have hlength := Reference.length_ofChunks read? [] chunks
    have hstarts : ∀ entry ∈ chunks.zip (Reference.ofChunks read? [] chunks),
        Reference.StartsAtChunk entry :=
      fun _ hmem => Reference.startsAtChunk_of_mem_zip hmem
    rw [addChunks, edgesFrom_addExtracted_empty hlength hstarts hdistinct hentry,
      map_key_builtEdges_eraseDups]

/-- Two functions, the first with two calls and the second with one. -/
def callingChunks : List Chunk :=
  [{ id := "m.py:1-3:function:f", name := "f", kind := .function, file := "m.py", path := "m.py",
     language := "python", startLine := 1, endLine := 3,
     content := "def f():\n    a()\n    b()\n" },
    { id := "m.py:6-7:function:g", name := "g", kind := .function, file := "m.py", path := "m.py",
      language := "python", startLine := 6, endLine := 7, content := "def g():\n    c()\n" }]

/-- Edges of one node change their order when the edge of another node is removed, and those of a
function when it is indexed once more. -/
theorem edges_out_of_insertion_order :
    (¬∀ (changes : List EdgeChange) (id : String),
      ((changes.foldl change {}).edgesFrom id).map Edge.key =
        (changes.foldl EdgeChange.insert []).filter fun key => key.1 = id) ∧
    let first := (({} : Store).addChunks (fun _ => none) callingChunks).1
    let second := (first.addChunks (fun _ => none) callingChunks).1
    (first.edgesFrom "m.py:1-3:function:f").map Edge.target = ["a", "b"] ∧
      (second.edgesFrom "m.py:1-3:function:f").map Edge.target = ["b", "a"] := by
  refine ⟨?_, by decide +kernel⟩
  intro hinserted
  have hlisted := hinserted
    [.add { source := "a", target := "x", relation := .calls },
      .add { source := "b", target := "c", relation := .calls },
      .add { source := "b", target := "d", relation := .calls }, .removeFrom "a"] "b"
  revert hlisted
  decide

end Store

end CodeGraph
