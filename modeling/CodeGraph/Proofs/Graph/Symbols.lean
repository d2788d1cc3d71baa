import CodeGraph.Graph.SymbolIndex
import Mathlib.Data.List.Perm.Basic
import Mathlib.Data.List.Nodup

namespace CodeGraph

/-! What the order of the chunks means for the index of their names. -/

def Chunk.definition? (chunk : Chunk) : Option Definition :=
  chunk.qualifiedName?.map fun name => { name, file := chunk.file, id := chunk.id }

theorem eraseDups_of_nodup {κ : Type} [BEq κ] [LawfulBEq κ] {items : List κ}
    (hnodup : items.Nodup) : items.eraseDups = items := by
  induction items with
  | nil => rfl
  | cons item rest ih =>
      rw [List.nodup_cons] at hnodup
      have hothers : (rest.filter fun other => !(other == item)) = rest := by
        rw [List.filter_eq_self]
        intro other hmem
        simp only [Bool.not_eq_eq_eq_not, Bool.not_true, beq_eq_false_iff_ne]
        rintro rfl
        exact hnodup.1 hmem
      rw [List.eraseDups_cons, hothers, ih hnodup.2]

namespace SymbolIndex

theorem ofChunks_eq_filterMap (chunks : List Chunk) :
    ofChunks chunks = chunks.filterMap Chunk.definition? := by
  have hadd : ∀ (index : SymbolIndex) (chunk : Chunk),
      index.add chunk = index ++ chunk.definition?.toList := by
    intro index chunk
    rw [add, Chunk.definition?]
    cases chunk.qualifiedName? <;> simp
  have hfold : ∀ index : SymbolIndex,
      chunks.foldl add index = index ++ chunks.filterMap Chunk.definition? := by
    induction chunks with
    | nil => simp
    | cons chunk rest ih =>
        intro index
        rw [List.foldl_cons, ih, hadd, List.filterMap_cons]
        cases chunk.definition? <;> simp
  exact hfold []

theorem id_of_mem_definition? {chunk : Chunk} {entry : Definition}
    (hentry : chunk.definition? = some entry) : entry.id = chunk.id ∧ entry.file = chunk.file := by
  obtain ⟨name, -, rfl⟩ := Option.map_eq_some_iff.mp hentry
  exact ⟨rfl, rfl⟩

theorem map_id_ofChunks_sublist (chunks : List Chunk) :
    ((ofChunks chunks).map Definition.id).Sublist (chunks.map Chunk.id) := by
  rw [ofChunks_eq_filterMap]
  induction chunks with
  | nil => simp
  | cons chunk rest ih =>
      rw [List.filterMap_cons, List.map_cons]
      cases hentry : chunk.definition? with
      | none => exact ih.cons _
      | some entry =>
          rw [List.map_cons, (id_of_mem_definition? hentry).1]
          exact ih.cons_cons _

theorem filter_file_ofChunks (chunks : List Chunk) (file : String) :
    (ofChunks chunks).filter (fun entry => entry.file == file) =
      ofChunks (chunks.filter fun chunk => chunk.file = file) := by
  rw [ofChunks_eq_filterMap, ofChunks_eq_filterMap]
  induction chunks with
  | nil => rfl
  | cons chunk rest ih =>
      rw [List.filterMap_cons, List.filter_cons]
      cases hentry : chunk.definition? with
      | none =>
          by_cases hsame : chunk.file = file
          · simp [hentry, hsame, ih]
          · simp [hsame, ih]
      | some entry =>
          have hfile := (id_of_mem_definition? hentry).2
          by_cases hsame : chunk.file = file
          · simp [hentry, hfile, hsame, ih]
          · simp [hfile, hsame, ih]

theorem inFile?_eq_getLast? (index : SymbolIndex) (file name : String) :
    index.inFile? file name =
      (((index.filter fun entry => entry.file == file).filter
        fun entry => entry.name == name).getLast?).map Definition.id := by
  rw [inFile?, List.filter_filter, List.getLast?_eq_head?_reverse, ← List.filter_reverse,
    List.head?_filter]
  simp only [Bool.and_comm]

theorem candidates_of_nodup {chunks : List Chunk} (hdistinct : (chunks.map Chunk.id).Nodup)
    (name : String) :
    (ofChunks chunks).candidates name =
      ((ofChunks chunks).filter fun entry => entry.name == name).map Definition.id := by
  have hsublist := (List.filter_sublist (p := fun entry : Definition => entry.name == name)
    (l := ofChunks chunks)).map Definition.id
  exact eraseDups_of_nodup
    (hdistinct.sublist (hsublist.trans (map_id_ofChunks_sublist chunks)))

section Permuted

variable {chunks others : List Chunk} (hperm : others.Perm chunks)
variable (hdistinct : (chunks.map Chunk.id).Nodup)

include hperm hdistinct

theorem candidates_perm (name : String) :
    ((ofChunks others).candidates name).Perm ((ofChunks chunks).candidates name) := by
  have hothers : (others.map Chunk.id).Nodup := (hperm.map Chunk.id).nodup_iff.mpr hdistinct
  rw [candidates_of_nodup hdistinct, candidates_of_nodup hothers, ofChunks_eq_filterMap,
    ofChunks_eq_filterMap]
  exact ((hperm.filterMap _).filter _).map _

/-- The order of the files does not matter: a name with several definitions is looked for in one of
them only. -/
theorem resolve?_perm
    (hfiles : ∀ file, others.filter (fun chunk => chunk.file = file) =
      chunks.filter fun chunk => chunk.file = file) (target file : String) :
    (ofChunks others).resolve? target file = (ofChunks chunks).resolve? target file := by
  have hcandidates := candidates_perm hperm hdistinct target
  have hinFile : (ofChunks others).inFile? file target = (ofChunks chunks).inFile? file target := by
    rw [inFile?_eq_getLast?, inFile?_eq_getLast?, filter_file_ofChunks, filter_file_ofChunks,
      hfiles file]
  rw [resolve?, resolve?, hinFile]
  match hfound : (ofChunks chunks).candidates target with
  | [] =>
      rw [hfound] at hcandidates
      rw [hcandidates.eq_nil]
  | [only] =>
      rw [hfound] at hcandidates
      rw [List.perm_singleton.mp hcandidates]
  | first :: second :: more =>
      rw [hfound] at hcandidates
      match (ofChunks others).candidates target, hcandidates.length_eq with
      | _ :: _ :: _, _ => rfl

end Permuted

end SymbolIndex

end CodeGraph
