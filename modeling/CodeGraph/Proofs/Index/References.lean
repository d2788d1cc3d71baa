import CodeGraph.Index.References
import CodeGraph.Proofs.Graph.Edges
import CodeGraph.Proofs.Reference.Walk

namespace CodeGraph

/-! What becomes of a store when chunks and their references are added to it.  Each chunk's edges
are built anew from its references, and all other edges stay. -/

/-- Where a reference in a file leads: to the chunk that the index has for it, or else to its name.
A bare name that is called as a method is looked up nowhere. -/
def Reference.destination (index : SymbolIndex) (file : String) (reference : Reference) : String :=
  if reference.isMethodCall = true ∧ '.' ∉ reference.target.toList then reference.target
  else (index.resolve? reference.target file).getD reference.target

namespace Store

def edgeOf (index : SymbolIndex) (file : String) (reference : Reference) : Edge :=
  .ofReference reference (reference.destination index file)

theorem getD_resolve? (index : SymbolIndex) (file : String) (reference : Reference) :
    (resolve? index file reference).getD reference.target = reference.destination index file := by
  unfold resolve? Reference.destination
  by_cases hbare : reference.isMethodCall = true ∧ '.' ∉ reference.target.toList
  · have htest : (reference.isMethodCall && !reference.target.toList.contains '.') = true := by
      simpa using hbare
    rw [if_pos hbare, if_pos htest]
    rfl
  · have htest : ¬(reference.isMethodCall && !reference.target.toList.contains '.') = true := by
      simpa using hbare
    rw [if_neg hbare, if_neg htest]

/-- A chunk with the references that were found in it, unless its text could not be read. -/
abbrev Extracted := Chunk × Option (List Reference)

/-- The edges of a chunk as its references give them, one by one. -/
def newEdges (index : SymbolIndex) (entry : Extracted) : List Edge :=
  (entry.2.getD []).map (edgeOf index entry.1.file)

theorem source_of_mem_newEdges {index : SymbolIndex} {entry : Extracted}
    (hstarts : Reference.StartsAtChunk entry) {edge : Edge} (hmem : edge ∈ newEdges index entry) :
    edge.source = entry.1.id := by
  obtain ⟨reference, hreference, rfl⟩ := List.mem_map.mp hmem
  cases hfound : entry.2 with
  | none => simp [hfound] at hreference
  | some references =>
      rw [hfound, Option.getD_some] at hreference
      exact hstarts references hfound reference hreference

/-! Steps on the store and on the counts are independent of each other. -/

def refresh (index : SymbolIndex) (store : Store) (entry : Extracted) : Store :=
  (newEdges index entry).foldl addEdge (store.removeEdgesFrom entry.1.id)

def count (index : SymbolIndex) (stats : ReferenceStats) (entry : Extracted) : ReferenceStats :=
  match entry.2 with
  | none => { stats with failedChunks := stats.failedChunks + 1 }
  | some references =>
      { stats with
        edges := stats.edges + references.length
        resolvedTargets := stats.resolvedTargets +
          (references.filter fun reference =>
            (resolve? index entry.1.file reference).isSome).length }

theorem foldl_addReference (index : SymbolIndex) (file : String) (store : Store)
    (stats : ReferenceStats) (references : List Reference) :
    references.foldl (addReference index file) (store, stats) =
      ((references.map (edgeOf index file)).foldl addEdge store,
        { stats with
          edges := stats.edges + references.length
          resolvedTargets := stats.resolvedTargets +
            (references.filter fun reference =>
              (resolve? index file reference).isSome).length }) := by
  induction references generalizing store stats with
  | nil => rfl
  | cons reference rest ih =>
      rw [List.foldl_cons, addReference, ih, getD_resolve?]
      cases hfound : resolve? index file reference <;>
        simp [hfound, edgeOf, Nat.add_assoc, Nat.add_comm 1]

theorem replaceReferences_eq (index : SymbolIndex) (store : Store) (stats : ReferenceStats)
    (entry : Extracted) :
    replaceReferences index (store, stats) entry =
      (refresh index store entry, count index stats entry) := by
  obtain ⟨chunk, found⟩ := entry
  cases found with
  | none => rfl
  | some references => exact foldl_addReference index chunk.file _ stats references

theorem foldl_replaceReferences (index : SymbolIndex) (store : Store) (stats : ReferenceStats)
    (entries : List Extracted) :
    entries.foldl (replaceReferences index) (store, stats) =
      (entries.foldl (refresh index) store, entries.foldl (count index) stats) := by
  induction entries generalizing store stats with
  | nil => rfl
  | cons entry rest ih =>
      rw [List.foldl_cons, replaceReferences_eq, ih, List.foldl_cons, List.foldl_cons]

theorem addExtracted_eq (store : Store) (chunks : List Chunk)
    (extracted : List (Option (List Reference))) :
    store.addExtracted chunks extracted =
      ((chunks.zip extracted).foldl (refresh (.ofChunks chunks)) (chunks.foldl addChunk store),
        (chunks.zip extracted).foldl (count (.ofChunks chunks)) { chunks := chunks.length }) :=
  foldl_replaceReferences _ _ _ _

/-! Nodes -/

theorem nodes_foldl_addChunk (store : Store) (chunks : List Chunk) :
    (chunks.foldl addChunk store).nodes =
      Keyed.putAll Node.id Keyed.latest store.nodes (chunks.map Node.ofChunk) := by
  rw [← nodes_foldl_addNode, List.foldl_map]
  rfl

theorem edges_foldl_addChunk (store : Store) (chunks : List Chunk) :
    (chunks.foldl addChunk store).edges = store.edges := by
  rw [← edges_foldl_addNode store (chunks.map Node.ofChunk), List.foldl_map]
  rfl

theorem nodes_prefix_foldl_refresh (index : SymbolIndex) (store : Store)
    (entries : List Extracted) :
    store.nodes <+: (entries.foldl (refresh index) store).nodes := by
  induction entries generalizing store with
  | nil => exact List.prefix_rfl
  | cons entry rest ih =>
      have hentry : store.nodes <+: (refresh index store entry).nodes :=
        nodes_prefix_foldl_addEdge (store.removeEdgesFrom entry.1.id) (newEdges index entry)
      exact hentry.trans (ih (refresh index store entry))

theorem ids_prefix_foldl_refresh (index : SymbolIndex) (store : Store)
    (entries : List Extracted) :
    store.ids <+: (entries.foldl (refresh index) store).ids :=
  (nodes_prefix_foldl_refresh index store entries).map Node.id

theorem has_ends_foldl_refresh {index : SymbolIndex} {store : Store} {entries : List Extracted}
    {entry : Extracted} (hentry : entry ∈ entries) {edge : Edge}
    (hedge : edge ∈ newEdges index entry) :
    (entries.foldl (refresh index) store).has edge.source = true ∧
      (entries.foldl (refresh index) store).has edge.target = true := by
  induction entries generalizing store with
  | nil => cases hentry
  | cons other rest ih =>
      rcases List.mem_cons.mp hentry with rfl | hrest
      · exact has_ends_of_prefix_ids
          (ids_prefix_foldl_refresh index (refresh index store entry) rest)
          (has_ends_foldl_addEdge (store.removeEdgesFrom entry.1.id) hedge)
      · exact ih hrest

/-- A store that knows everything that is mentioned keeps its nodes. -/
theorem nodes_foldl_refresh_of_has {index : SymbolIndex} {store : Store} {entries : List Extracted}
    (hends : ∀ entry ∈ entries, ∀ edge ∈ newEdges index entry,
      store.has edge.source = true ∧ store.has edge.target = true) :
    (entries.foldl (refresh index) store).nodes = store.nodes := by
  induction entries generalizing store with
  | nil => rfl
  | cons entry rest ih =>
      have hentry : (refresh index store entry).nodes = store.nodes :=
        nodes_foldl_addEdge_of_has (hends entry List.mem_cons_self)
      rw [List.foldl_cons, ih, hentry]
      intro other hother edge hedge
      rw [has_of_nodes_eq hentry, has_of_nodes_eq hentry]
      exact hends other (List.mem_cons_of_mem entry hother) edge hedge

/-- Adding the chunks once more changes none of the nodes that have come to them since. -/
theorem nodes_foldl_addChunk_again {store later : Store} {chunks : List Chunk}
    (hnodes : (chunks.foldl addChunk store).nodes <+: later.nodes) :
    (chunks.foldl addChunk later).nodes = later.nodes := by
  obtain ⟨others, hothers⟩ := hnodes
  have hknown : ∀ node ∈ chunks.map Node.ofChunk,
      node.id ∈ (chunks.foldl addChunk store).nodes.map Node.id := by
    intro node hmem
    rw [nodes_foldl_addChunk]
    exact (Keyed.mem_map_key_putAll Keyed.joinsKey_latest).mpr
      (.inr (List.mem_map_of_mem (f := Node.id) hmem))
  rw [nodes_foldl_addChunk later, ← hothers, Keyed.putAll_append_of_mem hknown,
    nodes_foldl_addChunk, Keyed.putAll_putAll]

/-! Edges -/

/-- The edges of a chunk after its references were added, equal ones joined. -/
def builtEdges (index : SymbolIndex) (entry : Extracted) : List Edge :=
  Keyed.putAll Edge.key Edge.absorb [] (newEdges index entry)

theorem source_of_mem_builtEdges {index : SymbolIndex} {entry : Extracted}
    (hstarts : Reference.StartsAtChunk entry) {edge : Edge}
    (hmem : edge ∈ builtEdges index entry) : edge.source = entry.1.id := by
  have hkey : edge.key ∈ (builtEdges index entry).map Edge.key := List.mem_map_of_mem hmem
  rw [builtEdges, Keyed.mem_map_key_putAll joinsKey_absorb] at hkey
  rcases hkey with hnone | hnew
  · cases hnone
  · obtain ⟨new, hnew, hsame⟩ := List.mem_map.mp hnew
    have hsource : new.source = edge.source := congrArg Prod.fst hsame
    rw [← hsource, source_of_mem_newEdges hstarts hnew]

theorem filter_builtEdges (index : SymbolIndex) {entry : Extracted}
    (hstarts : Reference.StartsAtChunk entry) (keeps : String → Prop) [DecidablePred keeps] :
    (builtEdges index entry).filter (fun edge => keeps edge.source) =
      if keeps entry.1.id then builtEdges index entry else [] := by
  split
  · next hkeeps =>
      rw [List.filter_eq_self]
      intro edge hmem
      simpa [source_of_mem_builtEdges hstarts hmem] using hkeeps
  · next hdrops =>
      rw [List.filter_eq_nil_iff]
      intro edge hmem
      simpa [source_of_mem_builtEdges hstarts hmem] using hdrops

theorem edges_refresh {index : SymbolIndex} {entry : Extracted}
    (hstarts : Reference.StartsAtChunk entry) (store : Store) :
    (refresh index store entry).edges =
      (store.removeEdgesFrom entry.1.id).edges ++ builtEdges index entry := by
  -- nothing that is left starts at the chunk, so the new edges are joined only to each other
  have hfresh : ∀ edge ∈ newEdges index entry,
      edge.key ∉ (store.removeEdgesFrom entry.1.id).edges.map Edge.key := by
    intro edge hedge hmem
    obtain ⟨other, hother, hkey⟩ := List.mem_map.mp hmem
    have hsource : other.source = edge.source := congrArg Prod.fst hkey
    exact (mem_edges_removeEdgesFrom.mp hother).2
      (hsource.trans (source_of_mem_newEdges hstarts hedge))
  have hbuilt := Keyed.putAll_append_of_not_mem Edge.absorb hfresh []
  rw [List.append_nil] at hbuilt
  rw [refresh, edges_foldl_addEdge, hbuilt, builtEdges]

/-- Of several entries with the same chunk, the last one counts. -/
def lastBuiltEdges (index : SymbolIndex) : List Extracted → List Edge
  | [] => []
  | entry :: rest =>
      (if entry.1.id ∉ rest.map (·.1.id) then builtEdges index entry else []) ++
        lastBuiltEdges index rest

theorem source_of_mem_lastBuiltEdges {index : SymbolIndex} {entries : List Extracted}
    (hstarts : ∀ entry ∈ entries, Reference.StartsAtChunk entry) {edge : Edge}
    (hmem : edge ∈ lastBuiltEdges index entries) : edge.source ∈ entries.map (·.1.id) := by
  induction entries with
  | nil => cases hmem
  | cons entry rest ih =>
      rw [lastBuiltEdges, List.mem_append] at hmem
      rw [List.map_cons, List.mem_cons]
      rcases hmem with hfirst | hrest
      · split at hfirst
        · exact .inl (source_of_mem_builtEdges (hstarts entry List.mem_cons_self) hfirst)
        · cases hfirst
      · have hothers := fun other hother => hstarts other (List.mem_cons_of_mem entry hother)
        exact .inr (ih hothers hrest)

theorem edges_foldl_refresh_perm (index : SymbolIndex) {entries : List Extracted}
    (hstarts : ∀ entry ∈ entries, Reference.StartsAtChunk entry) (store : Store) :
    (entries.foldl (refresh index) store).edges.Perm
      ((store.edges.filter fun edge => edge.source ∉ entries.map (·.1.id)) ++
        lastBuiltEdges index entries) := by
  induction entries generalizing store with
  | nil => simp [lastBuiltEdges]
  | cons entry rest ih =>
      have hentry := hstarts entry List.mem_cons_self
      have hrest := ih (fun other hmem => hstarts other (List.mem_cons_of_mem entry hmem))
        (refresh index store entry)
      have hold : ((store.removeEdgesFrom entry.1.id).edges.filter fun edge =>
          edge.source ∉ rest.map (·.1.id)).Perm
          (store.edges.filter fun edge => edge.source ∉ (entry :: rest).map (·.1.id)) := by
        refine ((edges_removeEdgesFrom_perm store entry.1.id).filter _).trans ?_
        rw [List.filter_filter]
        refine .of_eq (List.filter_congr fun edge _ => ?_)
        rw [← Bool.decide_and, decide_eq_decide, List.map_cons, List.mem_cons, not_or, and_comm]
      -- an entry for the same chunk further on takes away what this one built
      have hnew := filter_builtEdges index hentry fun source =>
        source ∉ rest.map (·.1.id)
      rw [List.foldl_cons, lastBuiltEdges]
      refine hrest.trans ?_
      rw [edges_refresh hentry, List.filter_append, hnew, List.append_assoc]
      exact hold.append_right _

/-! The whole run -/

section Run

variable {chunks : List Chunk} {extracted : List (Option (List Reference))}
variable (hlength : extracted.length = chunks.length)

include hlength

theorem map_id_zip : (chunks.zip extracted).map (·.1.id) = chunks.map Chunk.id := by
  have hchunks := congrArg (List.map Chunk.id) (List.map_fst_zip (Nat.le_of_eq hlength.symm))
  rwa [List.map_map] at hchunks

variable (hstarts : ∀ entry ∈ chunks.zip extracted, Reference.StartsAtChunk entry)

include hstarts

theorem edges_addExtracted_perm (store : Store) :
    (store.addExtracted chunks extracted).1.edges.Perm
      ((store.edges.filter fun edge => edge.source ∉ chunks.map Chunk.id) ++
        lastBuiltEdges (.ofChunks chunks) (chunks.zip extracted)) := by
  have hrun := edges_foldl_refresh_perm (.ofChunks chunks) hstarts (chunks.foldl addChunk store)
  rw [map_id_zip hlength, edges_foldl_addChunk] at hrun
  rw [addExtracted_eq]
  exact hrun

/-- Edges that start elsewhere are not touched. -/
theorem otherEdges_addExtracted_perm (store : Store) :
    ((store.addExtracted chunks extracted).1.edges.filter fun edge =>
        edge.source ∉ chunks.map Chunk.id).Perm
      (store.edges.filter fun edge => edge.source ∉ chunks.map Chunk.id) := by
  have hnone : (lastBuiltEdges (.ofChunks chunks) (chunks.zip extracted)).filter
      (fun edge => edge.source ∉ chunks.map Chunk.id) = [] := by
    rw [List.filter_eq_nil_iff]
    intro edge hmem
    have hsource := source_of_mem_lastBuiltEdges hstarts hmem
    rw [map_id_zip hlength] at hsource
    simpa using hsource
  have hrun := (edges_addExtracted_perm hlength hstarts store).filter fun edge =>
    edge.source ∉ chunks.map Chunk.id
  rwa [List.filter_append, hnone, List.append_nil, List.filter_filter,
    List.filter_congr fun edge _ => Bool.and_self _] at hrun

theorem edges_addExtracted_again (store : Store) :
    ((store.addExtracted chunks extracted).1.addExtracted chunks extracted).1.edges.Perm
      (store.addExtracted chunks extracted).1.edges := by
  have hfirst := edges_addExtracted_perm hlength hstarts store
  have hothers := otherEdges_addExtracted_perm hlength hstarts store
  exact (edges_addExtracted_perm hlength hstarts _).trans
    ((hothers.append_right _).trans hfirst.symm)

end Run

theorem nodes_addExtracted_again (store : Store) (chunks : List Chunk)
    (extracted : List (Option (List Reference))) :
    ((store.addExtracted chunks extracted).1.addExtracted chunks extracted).1.nodes =
      (store.addExtracted chunks extracted).1.nodes := by
  generalize hfirst : (store.addExtracted chunks extracted).1 = first
  rw [addExtracted_eq] at hfirst
  have hchunks : (chunks.foldl addChunk first).nodes = first.nodes := by
    rw [← hfirst]
    exact nodes_foldl_addChunk_again (nodes_prefix_foldl_refresh _ _ _)
  -- the first run left a node for every end of an edge, so the second one adds none
  have hends : ∀ entry ∈ chunks.zip extracted, ∀ edge ∈ newEdges (.ofChunks chunks) entry,
      first.has edge.source = true ∧ first.has edge.target = true := by
    intro entry hentry edge hedge
    rw [← hfirst]
    exact has_ends_foldl_refresh hentry hedge
  rw [addExtracted_eq, nodes_foldl_refresh_of_has, hchunks]
  intro entry hentry edge hedge
  rw [has_of_nodes_eq hchunks, has_of_nodes_eq hchunks]
  exact hends entry hentry edge hedge

/-- Chunks that are added again, from files that are still the same, leave the nodes in place and
the edges as they are, and are counted as before. -/
theorem addChunks_addChunks (read? : String → Option String) (store : Store)
    (chunks : List Chunk) :
    let first := store.addChunks read? chunks
    let second := first.1.addChunks read? chunks
    second.1.nodes = first.1.nodes ∧ second.1.edges.Perm first.1.edges ∧ second.2 = first.2 := by
  refine ⟨nodes_addExtracted_again _ _ _, ?_, ?_⟩
  · exact edges_addExtracted_again (Reference.length_ofChunks read? [] chunks)
      (fun _ hentry => Reference.startsAtChunk_of_mem_zip hentry) store
  · simp only [addChunks, addExtracted_eq]

end Store

end CodeGraph
