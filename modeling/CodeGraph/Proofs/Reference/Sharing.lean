import CodeGraph.Proofs.Files.Paths
import CodeGraph.Proofs.Reference.Cache

namespace CodeGraph

open Syntax Names

/-! Chunks that share a cache.  A file is looked at once, on behalf of the first chunk that asks
for it, and a file that cannot be read is from then on the text of that chunk. -/

namespace Reference

/-- Only a chunk that can be parsed asks for the context of its file. -/
def asks (chunk : Chunk) : Bool :=
  (Language.ofName? chunk.language).isSome && (parse? chunk.content).isSome

def asksFor (path : String) (chunk : Chunk) : Bool :=
  asks chunk && Text.Path.components chunk.path == Text.Path.components path

def firstToAsk (chunks : List Chunk) (chunk : Chunk) : Chunk :=
  (chunks.find? (asksFor chunk.path)).getD chunk

/-- What is taken for the file of a chunk when the chunk is the first to ask. -/
def textFor (read? : String → Option String) (chunk : Chunk) : String :=
  (read? chunk.path).getD chunk.content

/-- The references of a chunk in a file of the given context. -/
def within (file : FileContext) (chunk : Chunk) : Option (List Reference) :=
  match Language.ofName? chunk.language with
  | none => some []
  | some .python => (parse? chunk.content).map (ofTree chunk file)

theorem ofChunk?_of_asks {chunk : Chunk} (hasks : asks chunk = true)
    (read? : String → Option String) (cache : ContextCache) :
    ofChunk? read? cache chunk =
      (within (cache.getOrBuild read? chunk.path chunk.content).1 chunk,
        (cache.getOrBuild read? chunk.path chunk.content).2) := by
  unfold asks at hasks
  unfold ofChunk? within
  cases hlanguage : Language.ofName? chunk.language with
  | none => simp [hlanguage] at hasks
  | some language =>
      cases language
      cases hparse : parse? chunk.content with
      | none => simp [hparse] at hasks
      | some root => simp

theorem ofChunk?_of_not_asks {chunk : Chunk} (hasks : asks chunk = false)
    (read? : String → Option String) (cache : ContextCache) (file : FileContext) :
    ofChunk? read? cache chunk = (within file chunk, cache) := by
  unfold asks at hasks
  unfold ofChunk? within
  cases hlanguage : Language.ofName? chunk.language with
  | none => rfl
  | some language =>
      cases language
      cases hparse : parse? chunk.content with
      | none => rfl
      | some root => simp [hlanguage, hparse] at hasks

theorem alone_eq_within (read? : String → Option String) (chunk : Chunk) :
    alone read? chunk = within (.ofText (textFor read? chunk)) chunk := by
  unfold alone
  cases hasks : asks chunk with
  | true =>
      rw [ofChunk?_of_asks hasks]
      rfl
  | false => rw [ofChunk?_of_not_asks hasks]

/-! The cache holds what the first chunk to ask for a file has found. -/

def Holds (read? : String → Option String) (before : List Chunk) (cache : ContextCache) : Prop :=
  ∀ path, cache.get? path =
    (before.find? (asksFor path)).map fun first => .ofText (textFor read? first)

theorem holds_nil (read? : String → Option String) : Holds read? [] [] :=
  fun _ => rfl

section Step

variable {read? : String → Option String} {before : List Chunk} {cache : ContextCache}
variable (hholds : Holds read? before cache) (chunk : Chunk)

include hholds

theorem getOrBuild_of_holds (hasks : asks chunk = true) :
    (cache.getOrBuild read? chunk.path chunk.content).1 =
        .ofText (textFor read? (firstToAsk (before ++ [chunk]) chunk)) ∧
      Holds read? (before ++ [chunk]) (cache.getOrBuild read? chunk.path chunk.content).2 := by
  have hself : asksFor chunk.path chunk = true := by simp [asksFor, hasks]
  unfold ContextCache.getOrBuild firstToAsk
  rw [hholds chunk.path, List.find?_append]
  cases hfirst : before.find? (asksFor chunk.path) with
  | some first =>
      refine ⟨rfl, fun path => ?_⟩
      simp only [Option.map_some]
      rw [hholds path, List.find?_append]
      -- whoever asks for the same components was there before
      cases hearlier : before.find? (asksFor path) with
      | some earlier => rfl
      | none =>
          rw [Option.none_or, List.find?_singleton]
          split
          · next hasked =>
              exfalso
              rw [List.find?_eq_none] at hearlier
              apply hearlier first (List.mem_of_find?_eq_some hfirst)
              have hsame := List.find?_some hfirst
              simp only [asksFor, Bool.and_eq_true, beq_iff_eq] at hasked hsame ⊢
              exact ⟨hsame.1, hsame.2.trans hasked.2⟩
          · rfl
  | none =>
      rw [List.find?_singleton, if_pos hself]
      refine ⟨rfl, fun path => ?_⟩
      simp only [Option.map_none]
      rw [get?_concat, hholds path, List.find?_append, Option.map_or, List.find?_singleton]
      congr 1
      by_cases hpath : Text.Path.components chunk.path = Text.Path.components path
      · rw [if_pos hpath, if_pos (by simp [asksFor, hasks, hpath])]
        rfl
      · rw [if_neg hpath, if_neg (by simp [asksFor, hpath])]
        rfl

theorem ofChunk?_of_holds :
    (ofChunk? read? cache chunk).1 =
        within (.ofText (textFor read? (firstToAsk (before ++ [chunk]) chunk))) chunk ∧
      Holds read? (before ++ [chunk]) (ofChunk? read? cache chunk).2 := by
  cases hasks : asks chunk with
  | true =>
      obtain ⟨hcontext, hagain⟩ := getOrBuild_of_holds hholds chunk hasks
      rw [ofChunk?_of_asks hasks, hcontext]
      exact ⟨rfl, hagain⟩
  | false =>
      refine ⟨by rw [ofChunk?_of_not_asks hasks], fun path => ?_⟩
      rw [ofChunk?_of_not_asks hasks read? cache default, hholds path, List.find?_append,
        List.find?_singleton, if_neg (by simp [asksFor, hasks]), Option.or_none]

end Step

/-- Chunks that come later do not matter. -/
theorem within_firstToAsk_append (read? : String → Option String) (before after : List Chunk)
    (chunk : Chunk) :
    within (.ofText (textFor read? (firstToAsk (before ++ [chunk]) chunk))) chunk =
      within (.ofText (textFor read? (firstToAsk (before ++ chunk :: after) chunk))) chunk := by
  cases hasks : asks chunk with
  | true =>
      have hself : asksFor chunk.path chunk = true := by simp [asksFor, hasks]
      have hfirst : firstToAsk (before ++ [chunk]) chunk =
          firstToAsk (before ++ chunk :: after) chunk := by
        unfold firstToAsk
        rw [List.find?_append, List.find?_append, List.find?_cons_of_pos hself,
          List.find?_cons_of_pos hself]
      rw [hfirst]
  | false =>
      have hany : ∀ file, (ofChunk? read? [] chunk).1 = within file chunk := fun file => by
        rw [ofChunk?_of_not_asks hasks read? [] file]
      rw [← hany, ← hany]

theorem ofChunks_of_holds {read? : String → Option String} {before : List Chunk}
    {cache : ContextCache} (hholds : Holds read? before cache) (chunks : List Chunk) :
    ofChunks read? cache chunks = chunks.map fun chunk =>
      within (.ofText (textFor read? (firstToAsk (before ++ chunks) chunk))) chunk := by
  induction chunks generalizing before cache with
  | nil => rfl
  | cons chunk rest ih =>
      obtain ⟨hfound, hagain⟩ := ofChunk?_of_holds hholds chunk
      rw [within_firstToAsk_append read? before rest chunk] at hfound
      have hrest := ih hagain
      rw [List.append_assoc, List.singleton_append] at hrest
      rw [ofChunks, List.map_cons, ← hfound, ← hrest]

theorem firstToAsk_mem (chunks : List Chunk) {chunk : Chunk} (hmem : chunk ∈ chunks) :
    firstToAsk chunks chunk ∈ chunks ∧
      Text.Path.components (firstToAsk chunks chunk).path = Text.Path.components chunk.path := by
  unfold firstToAsk
  cases hfirst : chunks.find? (asksFor chunk.path) with
  | none => exact ⟨hmem, rfl⟩
  | some first =>
      have hasked := List.find?_some hfirst
      simp only [asksFor, Bool.and_eq_true, beq_iff_eq] at hasked
      exact ⟨List.mem_of_find?_eq_some hfirst, hasked.2⟩

/-- Chunks that are looked at one after the other, in any order, with one cache for all of them.
Each is seen in the text that was taken for its file when it was asked for first.  That makes no
difference where the file can be read, nor for the first chunk of a file. -/
theorem ofChunks_sharing_cache (files : Files) (chunks : List Chunk) :
    let read? := files.readText?
    ofChunks read? [] chunks =
      chunks.map (fun chunk => within (.ofText (textFor read? (firstToAsk chunks chunk))) chunk) ∧
    (∀ chunk, alone read? chunk = within (.ofText (textFor read? chunk)) chunk) ∧
    ∀ chunk ∈ chunks,
      (firstToAsk chunks chunk = chunk ∨
        ∀ other ∈ chunks,
          Text.Path.components other.path = Text.Path.components chunk.path →
            (read? other.path).isSome = true) →
      within (.ofText (textFor read? (firstToAsk chunks chunk))) chunk = alone read? chunk := by
  intro read?
  refine ⟨ofChunks_of_holds (holds_nil read?) chunks, alone_eq_within read?, ?_⟩
  intro chunk hmem hsame
  rw [alone_eq_within]
  rcases hsame with hfirst | hreads
  · rw [hfirst]
  · obtain ⟨hfirst, hcomponents⟩ := firstToAsk_mem chunks hmem
    have hchunk := hreads chunk hmem rfl
    have htext : read? (firstToAsk chunks chunk).path = read? chunk.path :=
      Files.readText?_eq_of_components hcomponents (hreads _ hfirst hcomponents) hchunk
    obtain ⟨text, hread⟩ := Option.isSome_iff_exists.mp hchunk
    rw [textFor, textFor, htext, hread, Option.getD_some, Option.getD_some]

/-- A class in a file that is not there, and its method as a chunk of its own. -/
def absentClass : Chunk :=
  { id := "m.py:1-3:class:A", name := "A", kind := .classDef, file := "m.py", path := "m.py",
    language := "python", startLine := 1, endLine := 3,
    content := "class A(B):\n    def m(self):\n        super().m()" }

def absentMethod : Chunk :=
  { id := "m.py:2-3:method:A.m", name := "m", kind := .method, file := "m.py", path := "m.py",
    language := "python", startLine := 2, endLine := 3, parentName := some "A",
    parentId := some "m.py:1-3:class:A", content := "def m(self):\n    super().m()" }

def targets (found : Option (List Reference)) : Option (List String) :=
  found.map fun references => references.map Reference.target

/-- The method finds the base of its class behind the class, and does not find it by itself or
before the class. -/
theorem ofChunks_not_alone :
    (¬∀ (files : Files) (chunks : List Chunk),
      ofChunks files.readText? [] chunks = chunks.map (alone files.readText?)) ∧
    let read? := ({} : Files).readText?
    (ofChunks read? [] [absentClass, absentMethod]).map targets =
      [some ["B", "B.m", "super"], some ["B.m", "super"]] ∧
    (ofChunks read? [] [absentMethod, absentClass]).map targets =
      [some ["super.m", "super"], some ["B", "B.m", "super"]] ∧
    targets (alone read? absentMethod) = some ["super.m", "super"] := by
  have hshared : (ofChunks ({} : Files).readText? [] [absentClass, absentMethod]).map targets =
      [some ["B", "B.m", "super"], some ["B.m", "super"]] := by
    decide +kernel
  have halone : targets (alone ({} : Files).readText? absentMethod) =
      some ["super.m", "super"] := by
    decide +kernel
  refine ⟨?_, hshared, by decide +kernel, halone⟩
  intro hsame
  rw [hsame, List.map_map] at hshared
  simp [halone] at hshared

end Reference

end CodeGraph
