import CodeGraph.Proofs.Files.Paths
import CodeGraph.Proofs.Graph.History
import CodeGraph.Proofs.Graph.Symbols
import CodeGraph.Proofs.Index.Listing
import CodeGraph.Proofs.Reference.Cache

namespace CodeGraph

namespace Store

/-! The order in which files are visited.  It decides on the places of nodes and edges, and on
nothing else. -/

/-! Indexes that resolve alike -/

section Index

variable {index other : SymbolIndex}
variable (hsame : ∀ target file, other.resolve? target file = index.resolve? target file)

include hsame

theorem newEdges_congr : newEdges other = newEdges index := by
  funext entry
  refine List.map_congr_left fun reference _ => ?_
  simp only [edgeOf, Reference.destination, hsame]

theorem builtEdges_congr : builtEdges other = builtEdges index := by
  funext entry
  rw [builtEdges, builtEdges, newEdges_congr hsame]

theorem count_congr : count other = count index := by
  funext stats entry
  simp only [count, resolve?, hsame]

end Index

theorem count_right_comm (index : SymbolIndex) (stats : ReferenceStats) (first second : Extracted) :
    count index (count index stats first) second =
      count index (count index stats second) first := by
  obtain ⟨chunk, found⟩ := first
  obtain ⟨other, others⟩ := second
  cases found <;> cases others <;> simp [count, Nat.add_right_comm]

/-! Nodes of a run -/

def mentioned (index : SymbolIndex) (entry : Extracted) : List String :=
  (newEdges index entry).flatMap Edge.ends

theorem node?_foldl_refresh (index : SymbolIndex) (store : Store) (entries : List Extracted)
    (id : String) :
    (entries.foldl (refresh index) store).node? id =
      (store.node? id).or (phantomAmong (entries.flatMap (mentioned index)) id) := by
  induction entries generalizing store with
  | nil => simp [phantomAmong]
  | cons entry rest ih =>
      have hentry : (refresh index store entry).node? id =
          (store.node? id).or (phantomAmong (mentioned index entry) id) :=
        node?_foldl_addEdge (store.removeEdgesFrom entry.1.id) (newEdges index entry) id
      rw [List.foldl_cons, ih, hentry, Option.or_assoc, ← phantomAmong_append, List.flatMap_cons]

theorem Sound.addExtracted {store : Store} (hsound : store.Sound) (chunks : List Chunk)
    (extracted : List (Option (List Reference))) :
    (store.addExtracted chunks extracted).1.Sound := by
  have hchunks : (chunks.foldl addChunk store).Sound :=
    List.foldlRecOn chunks addChunk hsound fun _ hbefore chunk _ => hbefore.addNode (.ofChunk chunk)
  rw [addExtracted_eq]
  refine List.foldlRecOn _ (refresh _) hchunks fun before hbefore entry _ => ?_
  exact List.foldlRecOn _ Store.addEdge (hbefore.removeEdgesFrom entry.1.id)
    fun _ hearlier edge _ => hearlier.addEdge edge

theorem nodes_foldl_addChunk_empty {chunks : List Chunk} (hdistinct : (chunks.map Chunk.id).Nodup) :
    (chunks.foldl addChunk {}).nodes = chunks.map Node.ofChunk := by
  rw [nodes_foldl_addChunk]
  refine Keyed.putAll_of_nodup ?_
  simpa [List.map_map, Function.comp_def] using hdistinct

/-! Runs over files that can be read -/

/-- The chunks with what is found in each. -/
def extractedAlone (read? : String → Option String) (chunks : List Chunk) : List Extracted :=
  chunks.map fun chunk => (chunk, Reference.alone read? chunk)

theorem addChunks_of_readable {read? : String → Option String} {chunks : List Chunk}
    (hreadable : Readable read? chunks) (store : Store) :
    store.addChunks read? chunks =
      ((extractedAlone read? chunks).foldl (refresh (.ofChunks chunks))
          (chunks.foldl addChunk store),
        (extractedAlone read? chunks).foldl (count (.ofChunks chunks))
          { chunks := chunks.length }) := by
  rw [addChunks, addExtracted_eq, Reference.ofChunks_eq_map hreadable, extractedAlone,
    List.map_prod_left_eq_zip]

/-- A node is a chunk or the phantom of something that is mentioned. -/
theorem node?_addChunks_empty {read? : String → Option String} {chunks : List Chunk}
    (hreadable : Readable read? chunks) (hdistinct : (chunks.map Chunk.id).Nodup) (id : String) :
    (({} : Store).addChunks read? chunks).1.node? id =
      (Keyed.lookup? Node.id (chunks.map Node.ofChunk) id).or
        (phantomAmong
          ((extractedAlone read? chunks).flatMap (mentioned (.ofChunks chunks))) id) := by
  rw [addChunks_of_readable hreadable, node?_foldl_refresh, node?_eq_lookup?,
    nodes_foldl_addChunk_empty hdistinct]

theorem edges_addChunks_empty {read? : String → Option String} {chunks : List Chunk}
    (hreadable : Readable read? chunks) (hdistinct : (chunks.map Chunk.id).Nodup) :
    (({} : Store).addChunks read? chunks).1.edges =
      (extractedAlone read? chunks).flatMap (builtEdges (.ofChunks chunks)) := by
  rw [addChunks, edges_addExtracted_empty (Reference.length_ofChunks read? [] chunks)
    (fun _ hentry => Reference.startsAtChunk_of_mem_zip hentry) hdistinct,
    Reference.ofChunks_eq_map hreadable, extractedAlone, List.map_prod_left_eq_zip]

section Permuted

variable {read? : String → Option String} {chunks others : List Chunk}
variable (hreadable : Readable read? chunks) (hperm : others.Perm chunks)
variable (hdistinct : (chunks.map Chunk.id).Nodup)
variable (hfiles : ∀ file, others.filter (fun chunk => chunk.file = file) =
  chunks.filter fun chunk => chunk.file = file)

include hreadable hperm hdistinct hfiles

theorem nodes_addChunks_perm :
    (({} : Store).addChunks read? others).1.nodes.Perm
      (({} : Store).addChunks read? chunks).1.nodes := by
  have hothers : (others.map Chunk.id).Nodup := (hperm.map Chunk.id).nodup_iff.mpr hdistinct
  apply Keyed.perm_of_lookup?_eq (Sound.empty.addExtracted others _).ids_nodup
    (Sound.empty.addExtracted chunks _).ids_nodup
  intro id
  have hchunks : Keyed.lookup? Node.id (others.map Node.ofChunk) id =
      Keyed.lookup? Node.id (chunks.map Node.ofChunk) id := by
    refine Keyed.lookup?_perm ?_ (hperm.map Node.ofChunk) id
    rwa [List.map_map]
  have hindex : mentioned (.ofChunks others) = mentioned (.ofChunks chunks) := by
    funext entry
    rw [mentioned, mentioned,
      newEdges_congr (SymbolIndex.resolve?_perm hperm hdistinct hfiles)]
  have hmentioned := ((hperm.map fun chunk => (chunk, Reference.alone read? chunk)).flatMap_right
    (mentioned (.ofChunks chunks))).mem_iff (a := id)
  have hnode := node?_addChunks_empty (hreadable.perm hperm) hothers id
  have hnode' := node?_addChunks_empty hreadable hdistinct id
  rw [node?_eq_lookup?] at hnode hnode'
  refine (hnode.trans ?_).trans hnode'.symm
  rw [hchunks, hindex]
  exact congrArg (Option.or _) (if_congr hmentioned rfl rfl)

theorem edges_addChunks_perm :
    (({} : Store).addChunks read? others).1.edges.Perm
      (({} : Store).addChunks read? chunks).1.edges := by
  have hothers : (others.map Chunk.id).Nodup := (hperm.map Chunk.id).nodup_iff.mpr hdistinct
  rw [edges_addChunks_empty hreadable hdistinct,
    edges_addChunks_empty (hreadable.perm hperm) hothers,
    builtEdges_congr (SymbolIndex.resolve?_perm hperm hdistinct hfiles)]
  exact (hperm.map _).flatMap_right _

theorem stats_addChunks_perm :
    (({} : Store).addChunks read? others).2 = (({} : Store).addChunks read? chunks).2 := by
  rw [addChunks_of_readable hreadable, addChunks_of_readable (hreadable.perm hperm),
    count_congr (SymbolIndex.resolve?_perm hperm hdistinct hfiles), hperm.length_eq]
  exact (hperm.map _).foldl_eq'
    (fun first _ second _ stats => count_right_comm _ stats first second) _

end Permuted

theorem readable_of_files {files : Files} {chunks : List Chunk}
    (hreads : ∀ chunk ∈ chunks, (files.readText? chunk.path).isSome = true) :
    Readable files.readText? chunks where
  isSome := hreads
  eq_of_components first hfirst second hsecond hcomponents :=
    Files.readText?_eq_of_components hcomponents (hreads first hfirst) (hreads second hsecond)

/-- Chunks of distinct ids whose files can be read make the same graph in whatever order the files
are visited. -/
theorem addChunks_of_files_permuted (files : Files) {chunks others : List Chunk}
    (hreads : ∀ chunk ∈ chunks, (files.readText? chunk.path).isSome = true)
    (hdistinct : (chunks.map Chunk.id).Nodup) (hperm : others.Perm chunks)
    (hfiles : ∀ file, others.filter (fun chunk => chunk.file = file) =
      chunks.filter fun chunk => chunk.file = file) :
    let first := ({} : Store).addChunks files.readText? chunks
    let second := ({} : Store).addChunks files.readText? others
    second.1.nodes.Perm first.1.nodes ∧ second.1.edges.Perm first.1.edges ∧
      second.2 = first.2 := by
  have hreadable := readable_of_files hreads
  exact ⟨nodes_addChunks_perm hreadable hperm hdistinct hfiles,
    edges_addChunks_perm hreadable hperm hdistinct hfiles,
    stats_addChunks_perm hreadable hperm hdistinct hfiles⟩

/-- Two files that define the same name, and a call of it in each. -/
def twinFiles : Files :=
  { root := .directory
      [("a.py", .ofText "def run():\n    pass\n\n\ndef go():\n    run()\n    help()\n"),
        ("b.py", .ofText "def run():\n    run()\n")] }

def twinRun : Chunk :=
  { id := "a.py:1-2:function:run", name := "run", kind := .function, file := "a.py",
    path := "a.py", language := "python", startLine := 1, endLine := 2,
    content := "def run():\n    pass" }

def twinGo : Chunk :=
  { id := "a.py:5-7:function:go", name := "go", kind := .function, file := "a.py",
    path := "a.py", language := "python", startLine := 5, endLine := 7,
    content := "def go():\n    run()\n    help()" }

def twinOther : Chunk :=
  { id := "b.py:1-2:function:run", name := "run", kind := .function, file := "b.py",
    path := "./b.py", language := "python", startLine := 1, endLine := 2,
    content := "def run():\n    run()" }

def twins : List Chunk := [twinRun, twinGo, twinOther]

def permutedTwins : List Chunk := [twinRun, twinOther, twinGo]

theorem filter_permutedTwins (file : String) :
    permutedTwins.filter (fun chunk => chunk.file = file) =
      twins.filter fun chunk => chunk.file = file := by
  by_cases hfile : "a.py" = file
  · subst hfile
    rfl
  · simp [twins, permutedTwins, twinRun, twinGo, List.filter_cons, hfile]

theorem addChunks_of_files_permuted_twins :
    let first := ({} : Store).addChunks twinFiles.readText? twins
    let second := ({} : Store).addChunks twinFiles.readText? permutedTwins
    (∀ chunk ∈ twins, (twinFiles.readText? chunk.path).isSome = true) ∧
      (twins.map Chunk.id).Nodup ∧ permutedTwins.Perm twins ∧
      (∀ file, permutedTwins.filter (fun chunk => chunk.file = file) =
        twins.filter fun chunk => chunk.file = file) ∧
      second.1.nodes.Perm first.1.nodes ∧ second.1.edges.Perm first.1.edges ∧
      second.2 = first.2 :=
  have hreads : ∀ chunk ∈ twins, (twinFiles.readText? chunk.path).isSome = true := by
    decide +kernel
  have hperm : permutedTwins.Perm twins := (List.Perm.swap twinGo twinOther []).cons twinRun
  ⟨hreads, by decide, hperm, filter_permutedTwins,
    addChunks_of_files_permuted twinFiles hreads (by decide) hperm filter_permutedTwins⟩

end Store

end CodeGraph
