import CodeGraph.Proofs.Index.References
import Mathlib.Data.List.Forall2
import Mathlib.Data.Prod.Basic

namespace CodeGraph

/-! The edges of a chunk as a summary of the references in it: those that arrive at the same place
are the occurrences of one edge. -/

def Edge.arrival (edge : Edge) : String × Relation :=
  (edge.target, edge.relation)

def Reference.arrival (index : SymbolIndex) (file : String) (reference : Reference) :
    String × Relation :=
  (reference.destination index file, reference.relation)

namespace Store

def occurrences (index : SymbolIndex) (file : String) (references : List Reference)
    (edge : Edge) : List Reference :=
  references.filter fun reference => reference.arrival index file = edge.arrival

structure SumsUp (index : SymbolIndex) (file : String) (references : List Reference)
    (edges : List Edge) : Prop where
  arrivals_nodup : (edges.map Edge.arrival).Nodup
  mem_arrivals_iff : ∀ arrival,
    arrival ∈ edges.map Edge.arrival ↔ arrival ∈ references.map (Reference.arrival index file)
  weight_eq : ∀ edge ∈ edges, edge.weight = (occurrences index file references edge).length
  line_eq : ∀ edge ∈ edges,
    (occurrences index file references edge).head?.map Reference.line = some edge.line
  isMethodCall_eq : ∀ edge ∈ edges,
    edge.isMethodCall = (occurrences index file references edge).any Reference.isMethodCall

theorem SumsUp.perm {index : SymbolIndex} {file : String} {references : List Reference}
    {edges others : List Edge} (hsum : SumsUp index file references edges)
    (hperm : others.Perm edges) : SumsUp index file references others where
  arrivals_nodup := (hperm.map Edge.arrival).nodup_iff.mpr hsum.arrivals_nodup
  mem_arrivals_iff arrival :=
    (hperm.map Edge.arrival).mem_iff.trans (hsum.mem_arrivals_iff arrival)
  weight_eq edge hmem := hsum.weight_eq edge (hperm.mem_iff.mp hmem)
  line_eq edge hmem := hsum.line_eq edge (hperm.mem_iff.mp hmem)
  isMethodCall_eq edge hmem := hsum.isMethodCall_eq edge (hperm.mem_iff.mp hmem)

/-! One edge of several occurrences -/

/-- The first occurrence gives the line, each of them counts once, and one method call among them
is enough. -/
theorem joined?_edgeOf {index : SymbolIndex} {file : String} {references : List Reference}
    {edge : Edge}
    (hjoined : Keyed.joined? Edge.absorb (references.map (edgeOf index file)) = some edge) :
    edge.weight = references.length ∧
      references.head?.map Reference.line = some edge.line ∧
      edge.isMethodCall = references.any Reference.isMethodCall := by
  -- from the end of the list, as the last occurrence is joined to what the others gave
  induction references using List.reverseRecOn generalizing edge with
  | nil => cases hjoined
  | append_singleton references last ih =>
      rw [List.map_append, List.map_singleton, Keyed.joined?_concat, Option.some_inj] at hjoined
      cases hearlier : Keyed.joined? Edge.absorb (references.map (edgeOf index file)) with
      | none =>
          have hnone : references = [] := by
            cases references with
            | nil => rfl
            | cons first others => cases hearlier
          subst hjoined hnone
          refine ⟨rfl, rfl, ?_⟩
          simp [Keyed.joined?, edgeOf, Edge.ofReference]
      | some earlier =>
          obtain ⟨hweight, hline, hmethod⟩ := ih hearlier
          rw [hearlier, Option.map_some, Option.getD_some] at hjoined
          subst hjoined
          refine ⟨?_, ?_, ?_⟩
          · rw [List.length_append, ← hweight]
            rfl
          · cases references with
            | nil => cases hline
            | cons first others => exact hline
          · rw [List.any_append, ← hmethod]
            simp [Edge.absorb, edgeOf, Edge.ofReference]

theorem nodup_keys_builtEdges (index : SymbolIndex) (entry : Extracted) :
    ((builtEdges index entry).map Edge.key).Nodup :=
  Keyed.nodup_putAll joinsKey_absorb _ List.nodup_nil

section Built

variable {index : SymbolIndex} {chunk : Chunk} {references : List Reference}
variable (hstarts : Reference.StartsAtChunk (chunk, some references))

include hstarts

theorem key_edgeOf {reference : Reference} (hmem : reference ∈ references) :
    (edgeOf index chunk.file reference).key =
      (chunk.id, reference.arrival index chunk.file) := by
  have hsource : reference.source = chunk.id := hstarts references rfl reference hmem
  rw [← hsource]
  rfl

theorem key_of_mem_builtEdges {edge : Edge}
    (hmem : edge ∈ builtEdges index (chunk, some references)) :
    edge.key = (chunk.id, edge.arrival) := by
  have hsource : edge.source = chunk.id := source_of_mem_builtEdges hstarts hmem
  rw [← hsource]
  rfl

/-- As all edges start at the chunk, their arrivals are as good as their keys. -/
theorem map_key_builtEdges :
    (builtEdges index (chunk, some references)).map Edge.key =
      ((builtEdges index (chunk, some references)).map Edge.arrival).map (Prod.mk chunk.id) := by
  rw [List.map_map]
  exact List.map_congr_left fun edge hmem => key_of_mem_builtEdges hstarts hmem

theorem map_key_newEdges :
    (newEdges index (chunk, some references)).map Edge.key =
      (references.map (Reference.arrival index chunk.file)).map (Prod.mk chunk.id) := by
  rw [newEdges, List.map_map, List.map_map]
  exact List.map_congr_left fun reference hmem => key_edgeOf hstarts hmem

theorem mem_arrivals_builtEdges (arrival : String × Relation) :
    arrival ∈ (builtEdges index (chunk, some references)).map Edge.arrival ↔
      arrival ∈ references.map (Reference.arrival index chunk.file) := by
  have hinjective := Prod.mk_right_injective (β := String × Relation) chunk.id
  rw [← List.mem_map_of_injective hinjective, ← map_key_builtEdges hstarts, builtEdges,
    Keyed.mem_map_key_putAll joinsKey_absorb, map_key_newEdges hstarts,
    List.mem_map_of_injective hinjective]
  simp

/-- An edge that was built is made of its occurrences. -/
theorem joined?_of_mem_builtEdges {edge : Edge}
    (hmem : edge ∈ builtEdges index (chunk, some references)) :
    Keyed.joined? Edge.absorb
      ((occurrences index chunk.file references edge).map (edgeOf index chunk.file)) =
        some edge := by
  have hfilter : (newEdges index (chunk, some references)).filter (fun new => new.key = edge.key) =
      (occurrences index chunk.file references edge).map (edgeOf index chunk.file) := by
    rw [newEdges, List.filter_map, occurrences]
    congr 1
    refine List.filter_congr fun reference hreference => ?_
    rw [Function.comp_apply, key_edgeOf hstarts hreference, key_of_mem_builtEdges hstarts hmem,
      decide_eq_decide]
    exact Prod.mk_right_inj
  rw [← hfilter, ← Keyed.lookup?_putAll joinsKey_absorb]
  exact (Keyed.lookup?_eq_some_iff (nodup_keys_builtEdges index _)).mpr ⟨hmem, rfl⟩

theorem sumsUp_builtEdges :
    SumsUp index chunk.file references (builtEdges index (chunk, some references)) where
  arrivals_nodup := by
    have hnodup := nodup_keys_builtEdges index (chunk, some references)
    rw [map_key_builtEdges hstarts] at hnodup
    exact hnodup.of_map _
  mem_arrivals_iff := mem_arrivals_builtEdges hstarts
  weight_eq edge hmem := (joined?_edgeOf (joined?_of_mem_builtEdges hstarts hmem)).1
  line_eq edge hmem := (joined?_edgeOf (joined?_of_mem_builtEdges hstarts hmem)).2.1
  isMethodCall_eq edge hmem := (joined?_edgeOf (joined?_of_mem_builtEdges hstarts hmem)).2.2

end Built

/-! Weights -/

/-- New edges count once, whether they are joined to an edge or not. -/
theorem sumOf_weight_filter_put {edge : Edge} (hweight : edge.weight = 1)
    (keeps : String → Bool) (edges : List Edge) :
    sumOf (((Keyed.put Edge.key Edge.absorb edge edges).filter fun other =>
        keeps other.target).map Edge.weight) =
      sumOf ((edges.filter fun other => keeps other.target).map Edge.weight) +
        if keeps edge.target then 1 else 0 := by
  induction edges with
  | nil => cases hkeeps : keeps edge.target <;> simp [Keyed.put, hkeeps, hweight]
  | cons other rest ih =>
      rw [Keyed.put]
      split
      · next hkey =>
          have htarget : other.target = edge.target := congrArg (fun key => key.2.1) hkey
          have habsorb : (other.absorb edge).target = edge.target := htarget
          have hsum : (other.absorb edge).weight = other.weight + 1 := by
            simp [Edge.absorb, hweight]
          cases hkeeps : keeps edge.target with
          | true =>
              simp only [List.filter_cons, htarget, habsorb, hkeeps, if_true, List.map_cons,
                sumOf_cons, hsum]
              omega
          | false => simp [htarget, habsorb, hkeeps]
      · cases hkeeps : keeps other.target with
        | true => simp only [List.filter_cons, hkeeps, if_true, List.map_cons, sumOf_cons, ih,
            Nat.add_assoc]
        | false => simp only [List.filter_cons, hkeeps, Bool.false_eq_true, if_false, ih]

theorem sumOf_weight_filter_putAll {edges : List Edge}
    (hweights : ∀ edge ∈ edges, edge.weight = 1) (keeps : String → Bool) (start : List Edge) :
    sumOf (((Keyed.putAll Edge.key Edge.absorb start edges).filter fun edge =>
        keeps edge.target).map Edge.weight) =
      sumOf ((start.filter fun edge => keeps edge.target).map Edge.weight) +
        (edges.filter fun edge => keeps edge.target).length := by
  induction edges generalizing start with
  | nil => rfl
  | cons edge rest ih =>
      have hedge := hweights edge List.mem_cons_self
      rw [Keyed.putAll_cons, ih fun other hmem => hweights other (List.mem_cons_of_mem edge hmem),
        sumOf_weight_filter_put hedge, List.filter_cons]
      split
      · rw [List.length_cons]
        omega
      · rfl

theorem weight_of_mem_newEdges {index : SymbolIndex} {entry : Extracted} {edge : Edge}
    (hmem : edge ∈ newEdges index entry) : edge.weight = 1 := by
  obtain ⟨reference, -, rfl⟩ := List.mem_map.mp hmem
  rfl

theorem sumOf_weight_filter_builtEdges (keeps : String → Bool) (index : SymbolIndex)
    (entry : Extracted) :
    sumOf (((builtEdges index entry).filter fun edge => keeps edge.target).map Edge.weight) =
      ((newEdges index entry).filter fun edge => keeps edge.target).length := by
  rw [builtEdges, sumOf_weight_filter_putAll (fun _ => weight_of_mem_newEdges) keeps [],
    List.filter_nil, List.map_nil, sumOf_nil, Nat.zero_add]

theorem sumOf_weight_builtEdges (index : SymbolIndex) (entry : Extracted) :
    sumOf ((builtEdges index entry).map Edge.weight) = (entry.2.getD []).length := by
  have hall := sumOf_weight_filter_builtEdges (fun _ => true) index entry
  rwa [List.filter_true, List.filter_true, newEdges, List.length_map] at hall

/-! Counts -/

/-- All entries together add to a count what each of them adds. -/
theorem foldl_count_of_step (number : ReferenceStats → Nat) {index : SymbolIndex}
    {amount : Extracted → Nat}
    (hstep : ∀ stats entry, number (count index stats entry) = number stats + amount entry)
    (stats : ReferenceStats) (entries : List Extracted) :
    number (entries.foldl (count index) stats) = number stats + sumOf (entries.map amount) := by
  induction entries generalizing stats with
  | nil => rfl
  | cons entry rest ih =>
      rw [List.foldl_cons, ih, hstep, List.map_cons, sumOf_cons, Nat.add_assoc]

theorem edges_count (index : SymbolIndex) (stats : ReferenceStats) (entry : Extracted) :
    (count index stats entry).edges = stats.edges + (entry.2.getD []).length := by
  obtain ⟨chunk, found⟩ := entry
  cases found <;> rfl

/-! Chunks of distinct ids -/

theorem filter_lastBuiltEdges {index : SymbolIndex} {entries : List Extracted}
    (hdistinct : (entries.map (·.1.id)).Nodup)
    (hstarts : ∀ entry ∈ entries, Reference.StartsAtChunk entry) {entry : Extracted}
    (hentry : entry ∈ entries) :
    (lastBuiltEdges index entries).filter (fun edge => edge.source = entry.1.id) =
      builtEdges index entry := by
  induction entries with
  | nil => cases hentry
  | cons other rest ih =>
      rw [List.map_cons, List.nodup_cons] at hdistinct
      have hothers := fun later hlater => hstarts later (List.mem_cons_of_mem other hlater)
      rw [lastBuiltEdges, if_pos hdistinct.1, List.filter_append,
        filter_builtEdges index (hstarts other List.mem_cons_self) (· = entry.1.id)]
      rcases List.mem_cons.mp hentry with rfl | hrest
      · have hlast : (lastBuiltEdges index rest).filter (fun edge => edge.source = entry.1.id) =
            [] := by
          rw [List.filter_eq_nil_iff]
          intro edge hmem hsource
          have hlater := source_of_mem_lastBuiltEdges hothers hmem
          rw [of_decide_eq_true hsource] at hlater
          exact hdistinct.1 hlater
        rw [if_pos rfl, hlast, List.append_nil]
      · have hother : other.1.id ≠ entry.1.id := by
          intro hsame
          exact hdistinct.1 (hsame ▸ List.mem_map_of_mem (f := (·.1.id)) hrest)
        rw [if_neg hother, List.nil_append, ih hdistinct.2 hothers hrest]

section Distinct

variable {chunks : List Chunk} {extracted : List (Option (List Reference))}
variable (hlength : extracted.length = chunks.length)
variable (hstarts : ∀ entry ∈ chunks.zip extracted, Reference.StartsAtChunk entry)
variable (hdistinct : (chunks.map Chunk.id).Nodup)

include hlength hstarts hdistinct

theorem edgesFrom_addExtracted_perm (store : Store) {entry : Extracted}
    (hentry : entry ∈ chunks.zip extracted) :
    ((store.addExtracted chunks extracted).1.edgesFrom entry.1.id).Perm
      (builtEdges (.ofChunks chunks) entry) := by
  have hold : (store.edges.filter fun edge => edge.source ∉ chunks.map Chunk.id).filter
      (fun edge => edge.source = entry.1.id) = [] := by
    rw [List.filter_eq_nil_iff]
    intro edge hmem hsource
    have hother := of_decide_eq_true (List.mem_filter.mp hmem).2
    rw [of_decide_eq_true hsource] at hother
    exact hother (List.mem_map_of_mem (List.of_mem_zip hentry).1)
  have hrun := (edges_addExtracted_perm hlength hstarts store).filter fun edge =>
    edge.source = entry.1.id
  rw [← map_id_zip hlength] at hdistinct
  rwa [List.filter_append, hold, List.nil_append,
    filter_lastBuiltEdges hdistinct hstarts hentry] at hrun

theorem edges_stats_addExtracted (store : Store) :
    (store.addExtracted chunks extracted).2.edges =
      sumOf (chunks.map fun chunk =>
        sumOf (((store.addExtracted chunks extracted).1.edgesFrom chunk.id).map Edge.weight)) := by
  generalize hafter : (store.addExtracted chunks extracted).1 = after
  have hchunks : chunks = (chunks.zip extracted).map Prod.fst :=
    (List.map_fst_zip (Nat.le_of_eq hlength.symm)).symm
  have hentries : (chunks.zip extracted).map
      ((fun chunk => sumOf ((after.edgesFrom chunk.id).map Edge.weight)) ∘ Prod.fst) =
        (chunks.zip extracted).map fun entry => (entry.2.getD []).length := by
    refine List.map_congr_left fun entry hentry => ?_
    have hperm := edgesFrom_addExtracted_perm hlength hstarts hdistinct store hentry
    rw [hafter] at hperm
    rw [Function.comp_apply, sumOf_perm (hperm.map Edge.weight), sumOf_weight_builtEdges]
  rw [addExtracted_eq, foldl_count_of_step ReferenceStats.edges (edges_count _), Nat.zero_add,
    ← hentries, ← List.map_map, ← hchunks]

end Distinct

/-- The edges of a chunk after its references were looked for. -/
def Settles (index : SymbolIndex) (store : Store) (chunk : Chunk) :
    Option (List Reference) → Prop
  | none => store.edgesFrom chunk.id = []
  | some references => SumsUp index chunk.file references (store.edgesFrom chunk.id)

theorem settles_of_perm {index : SymbolIndex} {store : Store} {entry : Extracted}
    (hstarts : Reference.StartsAtChunk entry)
    (hperm : (store.edgesFrom entry.1.id).Perm (builtEdges index entry)) :
    Settles index store entry.1 entry.2 := by
  obtain ⟨chunk, found⟩ := entry
  cases found with
  | none => exact hperm.eq_nil
  | some references => exact (sumsUp_builtEdges hstarts).perm hperm

theorem ids_prefix_foldl_addChunk (store : Store) (chunks : List Chunk) :
    store.ids <+: (chunks.foldl addChunk store).ids := by
  induction chunks generalizing store with
  | nil => exact List.prefix_rfl
  | cons chunk rest ih =>
      exact (ids_prefix_addNode store (.ofChunk chunk)).trans (ih (store.addChunk chunk))

/-- What chunks of distinct ids leave behind: the edges of each of them sum up what was found in it,
all others are as before, no node has lost its place, and the references are counted by weight. -/
theorem addChunks_settles (read? : String → Option String) (store : Store) (chunks : List Chunk)
    (hdistinct : (chunks.map Chunk.id).Nodup) :
    let after := (store.addChunks read? chunks).1
    List.Forall₂ (Settles (.ofChunks chunks) after) chunks (Reference.ofChunks read? [] chunks) ∧
      (after.edges.filter fun edge => edge.source ∉ chunks.map Chunk.id).Perm
        (store.edges.filter fun edge => edge.source ∉ chunks.map Chunk.id) ∧
      store.ids <+: after.ids ∧
      (store.addChunks read? chunks).2.edges =
        sumOf (chunks.map fun chunk => sumOf ((after.edgesFrom chunk.id).map Edge.weight)) := by
  have hlength := Reference.length_ofChunks read? [] chunks
  have hstarts : ∀ entry ∈ chunks.zip (Reference.ofChunks read? [] chunks),
      Reference.StartsAtChunk entry :=
    fun _ hentry => Reference.startsAtChunk_of_mem_zip hentry
  refine ⟨List.forall₂_iff_zip.mpr ⟨hlength.symm, ?_⟩, ?_, ?_, ?_⟩
  · intro chunk found hentry
    exact settles_of_perm (hstarts _ hentry)
      (edgesFrom_addExtracted_perm hlength hstarts hdistinct store hentry)
  · exact otherEdges_addExtracted_perm hlength hstarts store
  · rw [addChunks, addExtracted_eq]
    exact (ids_prefix_foldl_addChunk store chunks).trans (ids_prefix_foldl_refresh _ _ _)
  · exact edges_stats_addExtracted hlength hstarts hdistinct store

/-- A function that calls another one twice and a method of that name once, and a text outside of
the grammar. -/
def sampleChunks : List Chunk :=
  [{ id := "a.py:1-4:function:f", name := "f", kind := .function, file := "a.py", path := "a.py",
     language := "python", startLine := 1, endLine := 4,
     content := "def f(x):\n    g()\n    g()\n    x.g()\n" },
    { id := "a.py:6-7:function:g", name := "g", kind := .function, file := "a.py", path := "a.py",
      language := "python", startLine := 6, endLine := 7, content := "def g():\n    pass\n" },
    { id := "b.py:1-1:module", name := "b", kind := .fileLevel, file := "b.py", path := "b.py",
      language := "python", startLine := 1, endLine := 1, content := "def (\n" }]

/-- A store with earlier edges of two of the chunks and of a third node. -/
def sampleStore : Store :=
  [{ source := "a.py:1-4:function:f", target := "h", relation := .calls, line := 2 },
    { source := "c.py:1-2:function:k", target := "g", relation := .calls, line := 2 },
    { source := "b.py:1-1:module", target := "os", relation := .imports, line := 1 }
    ].foldl addEdge {}

theorem addChunks_settles_sample :
    let found := Reference.ofChunks (fun _ => none) [] sampleChunks
    let after := (sampleStore.addChunks (fun _ => none) sampleChunks).1
    (sampleChunks.map Chunk.id).Nodup ∧
      found.map (·.map List.length) = [some 3, some 0, none] ∧
      List.Forall₂ (Settles (.ofChunks sampleChunks) after) sampleChunks found ∧
      (after.edges.filter fun edge => edge.source ∉ sampleChunks.map Chunk.id).Perm
        (sampleStore.edges.filter fun edge => edge.source ∉ sampleChunks.map Chunk.id) ∧
      sampleStore.ids <+: after.ids ∧
      (sampleStore.addChunks (fun _ => none) sampleChunks).2.edges =
        sumOf (sampleChunks.map fun chunk =>
          sumOf ((after.edgesFrom chunk.id).map Edge.weight)) :=
  ⟨by decide, by decide +kernel,
    addChunks_settles (fun _ => none) sampleStore sampleChunks (by decide)⟩

end Store

end CodeGraph
