import CodeGraph.Reference.Extract

namespace CodeGraph.Reference

open Syntax Names

/-! Where references come from: each is made by a node of the tree that is walked. -/

def MadeAt (origin : Origin) (tree : SyntaxTree) (reference : Reference) : Prop :=
  ∃ relation isMethodCall target, at? origin tree relation isMethodCall target = some reference

theorem eq_of_at? {origin : Origin} {tree : SyntaxTree} {relation : Relation}
    {isMethodCall : Bool} {target : String} {reference : Reference}
    (hat : at? origin tree relation isMethodCall target = some reference) :
    reference =
      { source := origin.id, target, relation, line := origin.startLine + tree.start.row,
        isMethodCall } := by
  unfold at? at hat
  split at hat
  · cases hat
  · exact (Option.some.inj hat).symm

theorem MadeAt.source_eq {origin : Origin} {tree : SyntaxTree} {reference : Reference}
    (hmade : MadeAt origin tree reference) : reference.source = origin.id := by
  obtain ⟨relation, isMethodCall, target, hat⟩ := hmade
  rw [eq_of_at? hat]

theorem MadeAt.line_eq {origin : Origin} {tree : SyntaxTree} {reference : Reference}
    (hmade : MadeAt origin tree reference) :
    reference.line = origin.startLine + tree.start.row := by
  obtain ⟨relation, isMethodCall, target, hat⟩ := hmade
  rw [eq_of_at? hat]

/-- Only nodes of these kinds make references. -/
def isReferring (kind : Kind) : Bool :=
  [.call, .raiseStatement, .exceptClause, .exceptGroupClause, .importStatement,
    .importFromStatement, .functionDefinition, .classDefinition].contains kind

/-! References of a single node -/

theorem madeAt_of_mem_filterMap {origin : Origin} {tree : SyntaxTree} {relation : Relation}
    {targets : List String} {reference : Reference}
    (hmem : reference ∈ targets.filterMap (at? origin tree relation false)) :
    MadeAt origin tree reference := by
  obtain ⟨target, -, hat⟩ := List.mem_filterMap.mp hmem
  exact ⟨relation, false, target, hat⟩

theorem madeAt_of_mem_ofCall {origin : Origin} {context : Context} {current : Option String}
    {tree : SyntaxTree} {reference : Reference}
    (hmem : reference ∈ ofCall origin context current tree) : MadeAt origin tree reference := by
  unfold ofCall at hmem
  split at hmem
  · next target isMethodCall htarget =>
      exact ⟨.calls, isMethodCall, target, Option.mem_toList.mp hmem⟩
  · cases hmem

theorem madeAt_of_mem_ofRaise {origin : Origin} {context : Context} {tree : SyntaxTree}
    {reference : Reference} (hmem : reference ∈ ofRaise origin context tree) :
    MadeAt origin tree reference := by
  obtain ⟨target, -, hat⟩ := Option.bind_eq_some_iff.mp (Option.mem_toList.mp hmem)
  exact ⟨.raises, false, target, hat⟩

theorem madeAt_of_mem_ofExcept {origin : Origin} {context : Context} {tree : SyntaxTree}
    {reference : Reference} (hmem : reference ∈ ofExcept origin context tree) :
    MadeAt origin tree reference := by
  unfold ofExcept at hmem
  split at hmem
  · exact madeAt_of_mem_filterMap hmem
  · cases hmem

theorem madeAt_of_mem_ofNode {origin : Origin} {context : Context} {current : Option String}
    {tree : SyntaxTree} {reference : Reference}
    (hmem : reference ∈ ofNode origin context current tree) : MadeAt origin tree reference := by
  unfold ofNode at hmem
  split at hmem
  · exact madeAt_of_mem_ofCall hmem
  · exact madeAt_of_mem_ofRaise hmem
  · exact madeAt_of_mem_ofExcept hmem
  · exact madeAt_of_mem_ofExcept hmem
  · exact madeAt_of_mem_filterMap hmem
  · exact madeAt_of_mem_filterMap hmem
  · cases hmem

theorem isReferring_of_mem_ofNode {origin : Origin} {context : Context} {current : Option String}
    {tree : SyntaxTree} {reference : Reference}
    (hmem : reference ∈ ofNode origin context current tree) : isReferring tree.kind = true := by
  unfold ofNode at hmem
  split at hmem <;> simp_all [isReferring]

/-! References of a tree -/

mutual

theorem exists_madeAt_of_mem_walk {origin : Origin} {current : Option String} {depth : Nat}
    {state : Walk} {tree : SyntaxTree} {reference : Reference}
    (hmem : reference ∈ (walk origin current depth state tree).1) :
    ∃ place ∈ tree.preorder, isReferring place.kind = true ∧ MadeAt origin place reference := by
  cases tree with
  | node kind role start stop text children =>
      rw [SyntaxTree.preorder_node]
      have hhere : isReferring kind = true →
          MadeAt origin (.node kind role start stop text children) reference →
          ∃ place ∈ .node kind role start stop text children :: SyntaxTree.preorderAll children,
            isReferring place.kind = true ∧ MadeAt origin place reference :=
        fun hkind hmade => ⟨_, List.mem_cons_self, hkind, hmade⟩
      have hbelow : (∃ place ∈ SyntaxTree.preorderAll children,
            isReferring place.kind = true ∧ MadeAt origin place reference) →
          ∃ place ∈ .node kind role start stop text children :: SyntaxTree.preorderAll children,
            isReferring place.kind = true ∧ MadeAt origin place reference := by
        rintro ⟨place, hplace, hmade⟩
        exact ⟨place, List.mem_cons_of_mem _ hplace, hmade⟩
      rw [walk.eq_def] at hmem
      dsimp only at hmem
      split at hmem
      · cases hmem
      · split at hmem
        · rcases List.mem_append.mp hmem with hbases | hfound
          · exact hhere rfl (madeAt_of_mem_filterMap hbases)
          · exact hbelow (exists_madeAt_of_mem_walkAll hfound)
        · rcases List.mem_append.mp hmem with hsignature | hfound
          · split at hsignature
            · exact hhere rfl (madeAt_of_mem_filterMap hsignature)
            · cases hsignature
          · exact hbelow (exists_madeAt_of_mem_walkAll hfound)
        · rcases List.mem_append.mp hmem with hnode | hfound
          · exact hhere (isReferring_of_mem_ofNode hnode) (madeAt_of_mem_ofNode hnode)
          · exact hbelow (exists_madeAt_of_mem_walkAll hfound)

theorem exists_madeAt_of_mem_walkAll {origin : Origin} {current : Option String} {depth : Nat}
    {state : Walk} {trees : List SyntaxTree} {reference : Reference}
    (hmem : reference ∈ (walkAll origin current depth state trees).1) :
    ∃ place ∈ SyntaxTree.preorderAll trees,
      isReferring place.kind = true ∧ MadeAt origin place reference := by
  cases trees with
  | nil =>
      rw [walkAll] at hmem
      cases hmem
  | cons tree rest =>
      rw [walkAll] at hmem
      rw [SyntaxTree.preorderAll_cons]
      rcases List.mem_append.mp hmem with hfirst | hothers
      · obtain ⟨place, hplace, hmade⟩ := exists_madeAt_of_mem_walk hfirst
        exact ⟨place, List.mem_append_left _ hplace, hmade⟩
      · obtain ⟨place, hplace, hmade⟩ := exists_madeAt_of_mem_walkAll hothers
        exact ⟨place, List.mem_append_right _ hplace, hmade⟩

end

/-! References of chunks -/

theorem source_of_mem_ofTree {chunk : Chunk} {file : FileContext} {root : SyntaxTree}
    {reference : Reference} (hmem : reference ∈ ofTree chunk file root) :
    reference.source = chunk.id := by
  obtain ⟨place, -, -, hmade⟩ := exists_madeAt_of_mem_walk hmem
  exact hmade.source_eq

theorem source_of_mem_ofChunk? {read? : String → Option String} {cache : ContextCache}
    {chunk : Chunk} {references : List Reference} {reference : Reference}
    (hfound : (ofChunk? read? cache chunk).1 = some references) (hmem : reference ∈ references) :
    reference.source = chunk.id := by
  unfold ofChunk? at hfound
  split at hfound
  · cases hfound
    cases hmem
  · split at hfound
    · cases hfound
    · cases hfound
      exact source_of_mem_ofTree hmem

/-- References that were found in a chunk start there. -/
def StartsAtChunk (entry : Chunk × Option (List Reference)) : Prop :=
  ∀ references, entry.2 = some references →
    ∀ reference ∈ references, reference.source = entry.1.id

theorem startsAtChunk_of_mem_zip {read? : String → Option String} {chunks : List Chunk}
    {entry : Chunk × Option (List Reference)} :
    ∀ {cache : ContextCache}, entry ∈ chunks.zip (ofChunks read? cache chunks) →
      StartsAtChunk entry := by
  induction chunks with
  | nil => intro cache hmem; cases hmem
  | cons chunk rest ih =>
      intro cache hmem
      rw [ofChunks, List.zip_cons_cons] at hmem
      rcases List.mem_cons.mp hmem with rfl | hrest
      · intro references hfound reference hreference
        exact source_of_mem_ofChunk? hfound hreference
      · exact ih hrest

theorem length_ofChunks (read? : String → Option String) (cache : ContextCache)
    (chunks : List Chunk) : (ofChunks read? cache chunks).length = chunks.length := by
  induction chunks generalizing cache with
  | nil => rfl
  | cons chunk rest ih =>
      rw [ofChunks, List.length_cons, List.length_cons, ih]

end CodeGraph.Reference
