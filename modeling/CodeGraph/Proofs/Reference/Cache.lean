import CodeGraph.Proofs.Reference.Walk

namespace CodeGraph

open Names

/-! Where all files can be read, what is found in a chunk does not depend on the chunks that were
looked at before it. -/

/-- Paths of the same components lead to the same text. -/
structure Readable (read? : String → Option String) (chunks : List Chunk) : Prop where
  isSome : ∀ chunk ∈ chunks, (read? chunk.path).isSome = true
  eq_of_components : ∀ first ∈ chunks, ∀ second ∈ chunks,
    Text.Path.components first.path = Text.Path.components second.path →
      read? first.path = read? second.path

theorem Readable.perm {read? : String → Option String} {chunks others : List Chunk}
    (hreadable : Readable read? chunks) (hperm : others.Perm chunks) :
    Readable read? others where
  isSome chunk hmem := hreadable.isSome chunk (hperm.subset hmem)
  eq_of_components first hfirst second hsecond :=
    hreadable.eq_of_components first (hperm.subset hfirst) second (hperm.subset hsecond)

namespace Reference

/-- The references of a chunk that is looked at by itself. -/
def alone (read? : String → Option String) (chunk : Chunk) : Option (List Reference) :=
  (ofChunk? read? [] chunk).1

/-- What is known of the files of the chunks is what their texts say. -/
def Agrees (read? : String → Option String) (chunks : List Chunk) (cache : ContextCache) : Prop :=
  ∀ chunk ∈ chunks, ∀ context, cache.get? chunk.path = some context →
    ∃ text, read? chunk.path = some text ∧ context = .ofText text

theorem get?_concat (cache : ContextCache) (path other : String) (context : FileContext) :
    ContextCache.get? (cache ++ [(Text.Path.components path, context)]) other =
      (cache.get? other).or
        (if Text.Path.components path = Text.Path.components other then some context
          else none) := by
  rw [ContextCache.get?, ContextCache.get?, List.find?_append, Option.map_or]
  by_cases hcomponents : Text.Path.components path = Text.Path.components other <;>
    simp [hcomponents]

section Agreement

variable {read? : String → Option String} {chunks : List Chunk} {cache : ContextCache}
variable {chunk : Chunk} (hchunk : chunk ∈ chunks) (hagrees : Agrees read? chunks cache)

include hchunk hagrees

theorem getOrBuild_of_agrees (fallback : String) :
    (cache.getOrBuild read? chunk.path fallback).1 =
      (ContextCache.getOrBuild read? [] chunk.path fallback).1 := by
  unfold ContextCache.getOrBuild
  cases hget : cache.get? chunk.path with
  | none => rfl
  | some context =>
      obtain ⟨text, htext, hcontext⟩ := hagrees chunk hchunk context hget
      simp [ContextCache.get?, htext, hcontext]

variable (hreadable : Readable read? chunks)

include hreadable

theorem agrees_getOrBuild (fallback : String) :
    Agrees read? chunks (cache.getOrBuild read? chunk.path fallback).2 := by
  unfold ContextCache.getOrBuild
  cases hget : cache.get? chunk.path with
  | some context => exact hagrees
  | none =>
      intro other hother context hfound
      rw [get?_concat, Option.or_eq_some_iff] at hfound
      rcases hfound with hold | ⟨-, hnew⟩
      · exact hagrees other hother context hold
      · split at hnew
        · next hcomponents =>
            -- the new context was built from the text that the other path leads to as well
            obtain ⟨text, htext⟩ := Option.isSome_iff_exists.mp (hreadable.isSome chunk hchunk)
            refine ⟨text, ?_, ?_⟩
            · rw [← hreadable.eq_of_components chunk hchunk other hother hcomponents, htext]
            · rw [htext, Option.getD_some] at hnew
              exact (Option.some.inj hnew).symm
        · cases hnew

theorem ofChunk?_of_agrees :
    (ofChunk? read? cache chunk).1 = alone read? chunk ∧
      Agrees read? chunks (ofChunk? read? cache chunk).2 := by
  unfold alone ofChunk?
  split
  · exact ⟨rfl, hagrees⟩
  · split
    · exact ⟨rfl, hagrees⟩
    · refine ⟨?_, agrees_getOrBuild hchunk hagrees hreadable chunk.content⟩
      simp only [getOrBuild_of_agrees hchunk hagrees]

end Agreement

theorem ofChunks_eq_map {read? : String → Option String} {chunks : List Chunk}
    (hreadable : Readable read? chunks) :
    ofChunks read? [] chunks = chunks.map (alone read?) := by
  have hcached : ∀ rest cache, rest ⊆ chunks → Agrees read? chunks cache →
      ofChunks read? cache rest = rest.map (alone read?) := by
    intro rest
    induction rest with
    | nil =>
        intro cache _ _
        rfl
    | cons chunk rest ih =>
        intro cache hsubset hagrees
        rw [List.cons_subset] at hsubset
        obtain ⟨hfound, hagain⟩ := ofChunk?_of_agrees hsubset.1 hagrees hreadable
        rw [ofChunks, List.map_cons, ← hfound, ← ih _ hsubset.2 hagain]
  apply hcached chunks [] (List.Subset.refl chunks)
  intro chunk _ context hfound
  cases hfound

end Reference

end CodeGraph
