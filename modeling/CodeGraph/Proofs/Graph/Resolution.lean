import CodeGraph.NameMap
import CodeGraph.Proofs.Graph.Levels
import CodeGraph.Proofs.Graph.Symbols
import Mathlib.Data.Finset.Card

namespace CodeGraph

/-! What a name stands for: the only chunk that defines it, or else the last one in the file at
hand.  It makes no difference whether all definitions are kept or two tables, one that collects the
chunks of a name and one that holds a single chunk for each name of a file. -/

/-- The names that a chunk defines.  Code at the level of a file defines none. -/
inductive Chunk.Defines (chunk : Chunk) : String → Prop
  | method {parent : String} (hkind : chunk.kind = .method)
      (hparent : chunk.parentName = some parent) : Defines chunk (parent ++ "." ++ chunk.name)
  | bare (hkind : chunk.kind ≠ .fileLevel)
      (hparent : chunk.kind = .method → chunk.parentName = none) : Defines chunk chunk.name

theorem Chunk.defines_iff {chunk : Chunk} {name : String} :
    chunk.Defines name ↔ chunk.qualifiedName? = some name := by
  constructor
  · intro hdefines
    cases hdefines with
    | method hkind hparent => simp [qualifiedName?, hkind, hparent]
    | bare hkind hparent =>
        cases hcase : chunk.kind <;> simp_all [qualifiedName?]
  · intro hname
    rw [qualifiedName?] at hname
    split at hname
    · cases hname
    · next hkind hparent =>
        cases hname
        exact .method hkind hparent
    · next hlevel hmethod =>
        cases hname
        refine .bare hlevel ?_
        intro hkind
        cases hparent : chunk.parentName with
        | none => rfl
        | some parent => exact absurd hparent (hmethod parent hkind)

instance (chunk : Chunk) (name : String) : Decidable (chunk.Defines name) :=
  decidable_of_iff _ Chunk.defines_iff.symm

/-- The chunks that define a name, in the order they were added. -/
def definers (chunks : List Chunk) (name : String) : List Chunk :=
  chunks.filter fun chunk => chunk.Defines name

namespace SymbolIndex

theorem filter_name_ofChunks (chunks : List Chunk) (name : String) :
    (ofChunks chunks).filter (fun entry => entry.name == name) =
      (definers chunks name).map fun chunk => { name, file := chunk.file, id := chunk.id } := by
  rw [ofChunks_eq_filterMap, definers]
  induction chunks with
  | nil => rfl
  | cons chunk rest ih =>
      rw [List.filterMap_cons, List.filter_cons]
      simp only [Chunk.definition?, Chunk.defines_iff] at ih ⊢
      cases hname : chunk.qualifiedName? with
      | none => simpa [hname] using ih
      | some other =>
          by_cases hsame : other = name
          · subst hsame
            simpa using ih
          · simpa [hsame] using ih

theorem candidates_ofChunks (chunks : List Chunk) (name : String) :
    (ofChunks chunks).candidates name = ((definers chunks name).map Chunk.id).eraseDups := by
  rw [candidates, filter_name_ofChunks, List.map_map]
  rfl

theorem inFile?_ofChunks (chunks : List Chunk) (file name : String) :
    (ofChunks chunks).inFile? file name =
      (((definers chunks name).filter fun chunk => chunk.file = file).getLast?).map Chunk.id := by
  rw [inFile?_eq_getLast?, List.filter_comm, filter_name_ofChunks, List.filter_map,
    List.getLast?_map, Option.map_map]
  rfl

/-! One more chunk -/

theorem candidates_concat (index : SymbolIndex) (entry : Definition) (name : String) :
    candidates (index ++ [entry]) name =
      if entry.name = name ∧ entry.id ∉ index.candidates name then
        index.candidates name ++ [entry.id]
      else index.candidates name := by
  simp only [candidates, List.filter_append, List.map_append, List.eraseDups_append]
  by_cases hname : entry.name = name
  · by_cases hid : entry.id ∈ (index.filter fun other => other.name == name).map Definition.id
    · simp [hname, List.removeAll, hid]
    · simp [hname, List.removeAll, hid, List.eraseDups_cons]
  · simp [hname, List.removeAll]

theorem inFile?_concat (index : SymbolIndex) (entry : Definition) (file name : String) :
    inFile? (index ++ [entry]) file name =
      if entry.file = file ∧ entry.name = name then some entry.id
      else index.inFile? file name := by
  rw [inFile?, List.reverse_append, List.reverse_singleton, List.singleton_append, List.find?_cons]
  by_cases hhere : entry.file = file ∧ entry.name = name
  · simp [hhere]
  · rw [if_neg hhere]
    have hother : (entry.file == file && entry.name == name) = false := by simpa using hhere
    rw [hother]
    rfl

end SymbolIndex

/-! Two tables -/

/-- For each file the chunk that a name stands for there, and for each name the chunks that define
it anywhere. -/
structure SymbolTables where
  byFile : NameMap (NameMap String) := []
  byName : NameMap (List String) := []

namespace SymbolTables

def ofFile (tables : SymbolTables) (file : String) : NameMap String :=
  (tables.byFile.get? file).getD []

def idsOf (tables : SymbolTables) (name : String) : List String :=
  (tables.byName.get? name).getD []

/-- In its file a chunk takes the place of an earlier one.  Among all chunks of the name it is
listed once, in the place where it came first. -/
def add (tables : SymbolTables) (chunk : Chunk) : SymbolTables :=
  match chunk.qualifiedName? with
  | none => tables
  | some name =>
      let ids := tables.idsOf name
      { byFile := tables.byFile.insert chunk.file ((tables.ofFile chunk.file).insert name chunk.id)
        byName := tables.byName.insert name
          (if ids.contains chunk.id then ids else ids ++ [chunk.id]) }

def ofChunks (chunks : List Chunk) : SymbolTables :=
  chunks.foldl add {}

def resolve? (tables : SymbolTables) (target file : String) : Option String :=
  match tables.byName.get? target with
  | some [only] => some only
  | some (_ :: _ :: _) => (tables.ofFile file).get? target
  | _ => none

/-- The tables hold what can be found in the list of all definitions. -/
structure Agrees (tables : SymbolTables) (index : SymbolIndex) : Prop where
  idsOf_eq : ∀ name, tables.idsOf name = index.candidates name
  ofFile_eq : ∀ file name, (tables.ofFile file).get? name = index.inFile? file name

theorem Agrees.empty : Agrees {} [] where
  idsOf_eq := fun _ => rfl
  ofFile_eq := fun _ _ => rfl

theorem Agrees.add {tables : SymbolTables} {index : SymbolIndex} (hagrees : tables.Agrees index)
    (chunk : Chunk) : (tables.add chunk).Agrees (index.add chunk) := by
  rw [SymbolTables.add, SymbolIndex.add]
  cases hname : chunk.qualifiedName? with
  | none => exact hagrees
  | some name =>
      refine ⟨fun other => ?_, fun file other => ?_⟩
      · rw [SymbolIndex.candidates_concat, ← hagrees.idsOf_eq other]
        simp only [idsOf, NameMap.get?_insert]
        by_cases hsame : name = other
        · subst hsame
          by_cases hknown : chunk.id ∈ (tables.byName.get? name).getD [] <;> simp [hknown]
        · simp [hsame]
      · rw [SymbolIndex.inFile?_concat, ← hagrees.ofFile_eq file other]
        simp only [ofFile, NameMap.get?_insert]
        by_cases hfile : chunk.file = file
        · subst hfile
          simp only [if_true, Option.getD_some, NameMap.get?_insert, true_and]
        · simp [hfile]

theorem agrees_ofChunks (chunks : List Chunk) :
    (ofChunks chunks).Agrees (SymbolIndex.ofChunks chunks) := by
  induction chunks using List.reverseRecOn with
  | nil => exact .empty
  | append_singleton chunks chunk ih =>
      rw [SymbolIndex.ofChunks, ofChunks, List.foldl_append, List.foldl_append]
      exact ih.add chunk

theorem Agrees.resolve? {tables : SymbolTables} {index : SymbolIndex}
    (hagrees : tables.Agrees index) (target file : String) :
    tables.resolve? target file = index.resolve? target file := by
  have hids := hagrees.idsOf_eq target
  rw [SymbolTables.resolve?, SymbolIndex.resolve?, ← hids, ← hagrees.ofFile_eq, idsOf]
  cases tables.byName.get? target with
  | none => rfl
  | some ids =>
      cases ids with
      | nil => rfl
      | cons first rest => cases rest <;> rfl

end SymbolTables

namespace SymbolIndex

theorem toFinset_candidates (chunks : List Chunk) (name : String) :
    ((ofChunks chunks).candidates name).toFinset =
      ((definers chunks name).map Chunk.id).toFinset := by
  ext id
  rw [candidates_ofChunks, List.mem_toFinset, List.mem_toFinset, List.mem_eraseDups]

theorem length_candidates (chunks : List Chunk) (name : String) :
    ((ofChunks chunks).candidates name).length =
      ((definers chunks name).map Chunk.id).toFinset.card := by
  rw [← toFinset_candidates, List.toFinset_card_of_nodup]
  exact nodup_eraseDups _

theorem resolve?_of_two_le {index : SymbolIndex} {target : String}
    (hmore : 2 ≤ (index.candidates target).length) (file : String) :
    index.resolve? target file = index.inFile? file target := by
  rw [resolve?]
  cases hfound : index.candidates target with
  | nil => simp [hfound] at hmore
  | cons first rest =>
      cases rest with
      | nil => simp [hfound] at hmore
      | cons second more => rfl

section Definers

variable {chunks : List Chunk} {target : String}

theorem resolve?_of_no_definer
    (hnone : ((definers chunks target).map Chunk.id).toFinset = ∅) (file : String) :
    (ofChunks chunks).resolve? target file = none := by
  have hempty : (ofChunks chunks).candidates target = [] := by
    rw [← List.toFinset_eq_empty_iff, toFinset_candidates, hnone]
  rw [resolve?, hempty]

theorem resolve?_of_one_definer {id : String}
    (hid : ((definers chunks target).map Chunk.id).toFinset = {id}) (file : String) :
    (ofChunks chunks).resolve? target file = some id := by
  obtain ⟨only, honly⟩ : ∃ only, (ofChunks chunks).candidates target = [only] := by
    rw [← List.length_eq_one_iff, length_candidates, hid, Finset.card_singleton]
  have hsame := toFinset_candidates chunks target
  rw [honly, hid, List.toFinset_cons, List.toFinset_nil, insert_empty_eq,
    Finset.singleton_inj] at hsame
  rw [resolve?, honly, hsame]

theorem resolve?_of_several_definers
    (hseveral : 2 ≤ ((definers chunks target).map Chunk.id).toFinset.card) (file : String) :
    (ofChunks chunks).resolve? target file =
      (((definers chunks target).filter fun chunk => chunk.file = file).getLast?).map Chunk.id := by
  rw [← length_candidates] at hseveral
  rw [resolve?_of_two_le hseveral, inFile?_ofChunks]

theorem mem_of_mem_definers {chunk : Chunk} (hchunk : chunk ∈ definers chunks target) :
    chunk ∈ chunks ∧ chunk.Defines target := by
  simpa [definers] using hchunk

/-- What is found is a definer, and one of the file where there are several. -/
theorem exists_definer_of_resolve? {file id : String}
    (hanswer : (ofChunks chunks).resolve? target file = some id) :
    ∃ chunk ∈ definers chunks target, chunk.id = id ∧
      (2 ≤ ((definers chunks target).map Chunk.id).toFinset.card → chunk.file = file) := by
  rcases Nat.lt_or_ge ((definers chunks target).map Chunk.id).toFinset.card 2 with hfew | hmany
  · have hsome : ((definers chunks target).map Chunk.id).toFinset.card ≠ 0 := by
      intro hzero
      rw [resolve?_of_no_definer (Finset.card_eq_zero.mp hzero)] at hanswer
      cases hanswer
    obtain ⟨only, honly⟩ := Finset.card_eq_one.mp (by omega :
      ((definers chunks target).map Chunk.id).toFinset.card = 1)
    have hid : only ∈ ((definers chunks target).map Chunk.id).toFinset := by
      rw [honly, Finset.mem_singleton]
    rw [resolve?_of_one_definer honly, Option.some.injEq] at hanswer
    obtain ⟨chunk, hchunk, hsame⟩ := List.mem_map.mp (List.mem_toFinset.mp hid)
    exact ⟨chunk, hchunk, hsame.trans hanswer, fun hmany => absurd hmany (Nat.not_le_of_lt hfew)⟩
  · rw [resolve?_of_several_definers hmany] at hanswer
    obtain ⟨chunk, hlast, rfl⟩ := Option.map_eq_some_iff.mp hanswer
    obtain ⟨hchunk, hfile⟩ := List.mem_filter.mp (List.mem_of_getLast? hlast)
    exact ⟨chunk, hchunk, rfl, fun _ => of_decide_eq_true hfile⟩

end Definers

/-- A name is resolved by the different chunks that define it, of whatever files, and by nothing
else. -/
theorem resolve?_by_definers (chunks : List Chunk) (target file : String) :
    let answer := (ofChunks chunks).resolve? target file
    let found := definers chunks target
    let ids := (found.map Chunk.id).toFinset
    (ids = ∅ → answer = none) ∧
    (∀ id, ids = {id} → answer = some id) ∧
    (2 ≤ ids.card →
      answer = ((found.filter fun chunk => chunk.file = file).getLast?).map Chunk.id) ∧
    (∀ id, answer = some id →
      ∃ chunk ∈ chunks, chunk.Defines target ∧ chunk.id = id ∧
        (2 ≤ ids.card → chunk.file = file)) ∧
    -- the same from tables that are kept up with each chunk
    (SymbolTables.ofChunks chunks).resolve? target file = answer := by
  refine ⟨fun hnone => resolve?_of_no_definer hnone file,
    fun id hid => resolve?_of_one_definer hid file,
    fun hseveral => resolve?_of_several_definers hseveral file, ?_,
    (SymbolTables.agrees_ofChunks chunks).resolve? target file⟩
  intro id hanswer
  obtain ⟨chunk, hchunk, hid, hfile⟩ := exists_definer_of_resolve? hanswer
  obtain ⟨hmem, hdefines⟩ := mem_of_mem_definers hchunk
  exact ⟨chunk, hmem, hdefines, hid, hfile⟩

end SymbolIndex

end CodeGraph
