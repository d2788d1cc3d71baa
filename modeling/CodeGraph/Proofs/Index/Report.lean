import CodeGraph.Index.Run
import CodeGraph.Proofs.Graph.Symbols
import CodeGraph.Proofs.Index.Listing

namespace CodeGraph

/-! What a run reports: how many edges there are, and how many references lead to chunks. -/

/-- What is found before anything is saved. -/
def Config.findings (config : Config) (files : Files) : IndexResult :=
  let run := ({} : Store).addChunks files.readText? (config.chunks files)
  .ofPhases (config.chunks files) run.1 run.2 (config.detection run.1)

theorem Config.index_eq (config : Config) (files : Files) :
    config.index files = config.persist (config.findings files) files := rfl

theorem Config.index_of_no_output {config : Config} (hnone : config.outputDir = none)
    (files : Files) : (config.index files).1 = .ok (config.findings files) := by
  rw [index_eq, persist, hnone]

/-- What a result holds besides the paths that it was saved at. -/
def IndexResult.Agrees (first second : IndexResult) : Prop :=
  first.store = second.store ∧ first.communities = second.communities ∧
    first.stats = second.stats

theorem IndexResult.agrees_of_save {result saved : IndexResult} {withCommunities : Bool}
    {directory : String} {files : Files}
    (hsaved : (result.save withCommunities directory files).1 = .ok saved) :
    saved.Agrees result := by
  unfold save at hsaved
  dsimp only at hsaved
  split at hsaved
  · cases hsaved
  · split at hsaved
    · split at hsaved
      · cases hsaved
      · cases hsaved
        exact ⟨rfl, rfl, rfl⟩
    · cases hsaved
      exact ⟨rfl, rfl, rfl⟩

theorem Config.agrees_of_persist {config : Config} {result saved : IndexResult} {files : Files}
    (hsaved : (config.persist result files).1 = .ok saved) : saved.Agrees result := by
  unfold persist at hsaved
  split at hsaved
  · exact IndexResult.agrees_of_save hsaved
  · cases hsaved
    exact ⟨rfl, rfl, rfl⟩

namespace SymbolIndex

theorem mem_of_inFile? {index : SymbolIndex} {file name id : String}
    (hfound : index.inFile? file name = some id) : id ∈ index.map Definition.id := by
  obtain ⟨entry, hentry, rfl⟩ := Option.map_eq_some_iff.mp hfound
  exact List.mem_map_of_mem (List.mem_reverse.mp (List.mem_of_find?_eq_some hentry))

theorem mem_of_candidates {index : SymbolIndex} {name id : String}
    (hmem : id ∈ index.candidates name) : id ∈ index.map Definition.id := by
  obtain ⟨entry, hentry, rfl⟩ := List.mem_map.mp (List.mem_eraseDups.mp hmem)
  exact List.mem_map_of_mem (List.mem_of_mem_filter hentry)

theorem mem_of_resolve? {index : SymbolIndex} {target file id : String}
    (hfound : index.resolve? target file = some id) : id ∈ index.map Definition.id := by
  unfold resolve? at hfound
  split at hfound
  · cases hfound
  · next only honly =>
      cases hfound
      have hmem : id ∈ index.candidates target := honly ▸ List.mem_singleton_self id
      exact mem_of_candidates hmem
  · exact mem_of_inFile? hfound

end SymbolIndex

namespace Store

theorem mem_ids_of_resolve? {chunks : List Chunk} {file id : String} {reference : Reference}
    (hfound : resolve? (.ofChunks chunks) file reference = some id) :
    id ∈ chunks.map Chunk.id := by
  unfold resolve? at hfound
  split at hfound
  · cases hfound
  · exact (SymbolIndex.map_id_ofChunks_sublist chunks).subset (SymbolIndex.mem_of_resolve? hfound)

/-- The references of a chunk that lead to chunks. -/
def resolvedIn (index : SymbolIndex) (entry : Extracted) : List Reference :=
  (entry.2.getD []).filter fun reference => (resolve? index entry.1.file reference).isSome

theorem resolvedTargets_count (index : SymbolIndex) (stats : ReferenceStats) (entry : Extracted) :
    (count index stats entry).resolvedTargets =
      stats.resolvedTargets + (resolvedIn index entry).length := by
  obtain ⟨chunk, found⟩ := entry
  cases found <;> rfl

/-- References that lead to chunks are among the occurrences of edges that end at chunks. -/
theorem length_resolvedIn_le (chunks : List Chunk) (entry : Extracted) :
    (resolvedIn (.ofChunks chunks) entry).length ≤
      sumOf (((builtEdges (.ofChunks chunks) entry).filter fun edge =>
        edge.target ∈ chunks.map Chunk.id).map Edge.weight) := by
  rw [sumOf_weight_filter_builtEdges fun id => id ∈ chunks.map Chunk.id, newEdges,
    List.filter_map, List.length_map]
  apply List.Sublist.length_le
  apply List.monotone_filter_right
  intro reference hresolved
  obtain ⟨id, hfound⟩ := Option.isSome_iff_exists.mp hresolved
  have htarget : (edgeOf (.ofChunks chunks) entry.1.file reference).target = id := by
    have hdestination := getD_resolve? (.ofChunks chunks) entry.1.file reference
    rw [hfound, Option.getD_some] at hdestination
    exact hdestination.symm
  simpa [htarget] using mem_ids_of_resolve? hfound

theorem resolvedTargets_addChunks (read? : String → Option String) (store : Store)
    (chunks : List Chunk) :
    (store.addChunks read? chunks).2.resolvedTargets =
      sumOf ((chunks.zip (Reference.ofChunks read? [] chunks)).map fun entry =>
        (resolvedIn (.ofChunks chunks) entry).length) := by
  rw [addChunks, addExtracted_eq,
    foldl_count_of_step ReferenceStats.resolvedTargets (resolvedTargets_count _), Nat.zero_add]

theorem resolvedTargets_addChunks_le (read? : String → Option String) {chunks : List Chunk}
    (hdistinct : (chunks.map Chunk.id).Nodup) :
    (({} : Store).addChunks read? chunks).2.resolvedTargets ≤
      sumOf (((({} : Store).addChunks read? chunks).1.edges.filter fun edge =>
        edge.target ∈ chunks.map Chunk.id).map Edge.weight) := by
  have hlength := Reference.length_ofChunks read? [] chunks
  have hstarts : ∀ entry ∈ chunks.zip (Reference.ofChunks read? [] chunks),
      Reference.StartsAtChunk entry :=
    fun _ hmem => Reference.startsAtChunk_of_mem_zip hmem
  rw [resolvedTargets_addChunks, addChunks,
    edges_addExtracted_empty hlength hstarts hdistinct, List.filter_flatMap, sumOf_flatMap]
  exact sumOf_map_le fun entry _ => length_resolvedIn_le chunks entry

end Store

/-- Edges are counted by what they join, and targets by how often a reference leads to a chunk.  So
the targets are within the weights of the edges that end at chunks, and within the number of edges
only where no such edge has more weight than one. -/
theorem IndexResult.resolvedTargets_within_weights (config : Config) (files : Files)
    {result : IndexResult} (hrun : (config.index files).1 = .ok result) :
    let chunks := config.chunks files
    let found := chunks.zip (Reference.ofChunks files.readText? [] chunks)
    result.stats.edges = result.store.edges.length ∧
    result.stats.resolvedTargets =
      sumOf (found.map fun entry => (Store.resolvedIn (.ofChunks chunks) entry).length) ∧
    ((chunks.map Chunk.id).Nodup →
      result.stats.resolvedTargets ≤
        sumOf ((result.store.edges.filter fun edge =>
          edge.target ∈ chunks.map Chunk.id).map Edge.weight) ∧
      ((∀ edge ∈ result.store.edges, edge.target ∈ chunks.map Chunk.id → edge.weight = 1) →
        result.stats.resolvedTargets ≤ result.stats.edges)) := by
  intro chunks found
  rw [Config.index_eq] at hrun
  obtain ⟨hstore, -, hstats⟩ := Config.agrees_of_persist hrun
  rw [hstore, hstats]
  refine ⟨rfl, Store.resolvedTargets_addChunks _ _ _, fun hdistinct => ?_⟩
  have hweights := Store.resolvedTargets_addChunks_le files.readText? hdistinct
  refine ⟨hweights, fun hones => ?_⟩
  calc
    _ ≤ _ := hweights
    _ ≤ sumOf (((({} : Store).addChunks files.readText? chunks).1.edges.filter fun edge =>
          edge.target ∈ chunks.map Chunk.id).map fun _ => 1) := by
        refine sumOf_map_le fun edge hmem => ?_
        obtain ⟨hedge, htarget⟩ := List.mem_filter.mp hmem
        exact Nat.le_of_eq (hones edge hedge (of_decide_eq_true htarget))
    _ ≤ _ := by
        rw [sumOf_map_one]
        exact List.length_filter_le _ _

/-- A project of one file. -/
def projectOf (text : String) : Files :=
  { root := .directory [("repo", .directory [("m.py", .ofText text)])] }

def projectConfig : Config :=
  { repoPath := "/repo", detectsCommunities := false }

/-- One call leads to a chunk, and the other name is called twice. -/
def callsOnce : Files :=
  projectOf "def f():\n    pass\n\n\ndef g():\n    f()\n    h()\n    h()\n"

theorem IndexResult.resolvedTargets_within_weights_once :
    ∃ result, (projectConfig.index callsOnce).1 = .ok result ∧
      result.stats.resolvedTargets = 1 ∧ result.stats.resolvedTargets ≤ result.stats.edges := by
  have hrun : (projectConfig.index callsOnce).1 = .ok (projectConfig.findings callsOnce) :=
    Config.index_of_no_output rfl callsOnce
  have hwithin := resolvedTargets_within_weights projectConfig callsOnce hrun
  exact ⟨_, hrun, by decide +kernel, (hwithin.2.2 (by decide +kernel)).2 (by decide +kernel)⟩

def callsTwice : Files :=
  projectOf "def f():\n    pass\n\n\ndef g():\n    f()\n    f()\n"

/-- A function that is called twice is one edge and two targets. -/
theorem IndexResult.resolvedTargets_beyond_edges :
    ¬∀ (config : Config) (files : Files) (result : IndexResult),
      (config.index files).1 = .ok result → result.stats.resolvedTargets ≤ result.stats.edges := by
  intro hwithin
  have htwice := hwithin projectConfig callsTwice _ (Config.index_of_no_output rfl callsTwice)
  revert htwice
  decide +kernel

end CodeGraph
