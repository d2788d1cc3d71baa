import CodeGraph.Proofs.Chunk.Ids
import CodeGraph.Proofs.Chunk.Places
import CodeGraph.Proofs.Syntax.Placement

namespace CodeGraph

open Syntax

/-! The order of the chunks of a file, and what tells them apart.  Where definitions share no row,
two chunks of one kind start on different lines. -/

/-! Rows of definitions -/

namespace Syntax.SyntaxTree

def SharesRow (first second : SyntaxTree) : Prop :=
  first.start.row ≤ second.stop.row ∧ second.start.row ≤ first.stop.row

instance (first second : SyntaxTree) : Decidable (SharesRow first second) :=
  inferInstanceAs (Decidable (_ ∧ _))

/-- No two definitions beside each other share a row. -/
def KeepsDefinitionsApart (tree : SyntaxTree) : Prop :=
  ∀ inner ∈ tree.preorder, inner.children.Pairwise fun first second =>
    (definitionOf? first).isSome → (definitionOf? second).isSome → ¬ SharesRow first second

instance (tree : SyntaxTree) : Decidable tree.KeepsDefinitionsApart :=
  inferInstanceAs (Decidable (∀ inner ∈ tree.preorder, inner.children.Pairwise _))

/-- Both at once, as what the splitting of a file rests on. -/
structure IsLaidOut (tree : SyntaxTree) : Prop where
  nested : tree.Nested
  apart : tree.KeepsDefinitionsApart

theorem IsLaidOut.child {tree child : SyntaxTree} (hlaid : tree.IsLaidOut)
    (hchild : child ∈ tree.children) : child.IsLaidOut where
  nested := hlaid.nested.child hchild
  apart := fun inner hinner => hlaid.apart inner (mem_preorder_of_child hchild hinner)

/-- Of two definitions beside each other, the first ends on a row before the second. -/
theorem IsLaidOut.pairwise_children {tree : SyntaxTree} (hlaid : tree.IsLaidOut) :
    tree.children.Pairwise fun first second =>
      (definitionOf? first).isSome → (definitionOf? second).isSome →
        first.stop.row < second.start.row := by
  refine (hlaid.nested.keepsRows.in_order.and
    (hlaid.apart tree (mem_preorder_self tree))).imp_of_mem ?_
  rintro first second hfirst hsecond ⟨horder, hshares⟩ hone hother
  have hforward := (hlaid.nested.child hfirst).keepsRows.forward
  have hbehind := (hlaid.nested.child hsecond).keepsRows.forward
  have hnot := hshares hone hother
  unfold SharesRow at hnot
  omega

/-- The definition that a statement introduces is laid out inside of it. -/
theorem IsLaidOut.definitionOf? {statement definition : SyntaxTree} (hlaid : statement.IsLaidOut)
    (hdefinition : definitionOf? statement = some definition) :
    definition.IsLaidOut ∧ statement.start.row ≤ definition.start.row ∧
      definition.stop.row ≤ statement.stop.row := by
  have hwhole : statement.IsLaidOut ∧ statement.start.row ≤ statement.start.row ∧
      statement.stop.row ≤ statement.stop.row := ⟨hlaid, le_rfl, le_rfl⟩
  unfold CodeGraph.definitionOf? at hdefinition
  split at hdefinition
  · cases hdefinition
    exact hwhole
  · cases hdefinition
    exact hwhole
  · have hchild := List.mem_of_find?_eq_some hdefinition
    exact ⟨hlaid.child hchild, hlaid.nested.keepsRows.inside definition hchild⟩
  · cases hdefinition

end Syntax.SyntaxTree

theorem mem_preorder_of_definitionOf? {statement definition inner : SyntaxTree}
    (hdefinition : definitionOf? statement = some definition)
    (hinner : inner ∈ definition.preorder) : inner ∈ statement.preorder := by
  unfold definitionOf? at hdefinition
  split at hdefinition
  · cases hdefinition
    exact hinner
  · cases hdefinition
    exact hinner
  · exact SyntaxTree.mem_preorder_of_child (List.mem_of_find?_eq_some hdefinition) hinner
  · cases hdefinition

namespace Chunk

/-! Methods -/

/-- What a member of a class that is a method has its chunk from. -/
theorem exists_of_methodOf? {file path : String} {parent : String × String} {member : SyntaxTree}
    {chunk : Chunk} (hmethod : methodOf? file path parent member = some chunk) :
    (definitionOf? member).isSome ∧
      ∃ name, chunk = ofDefinition file path .method member name (some parent) := by
  obtain ⟨method, name, hdefinition, -, -, rfl⟩ := methodOf?_eq_some_iff.mp hmethod
  exact ⟨Option.isSome_of_eq_some hdefinition, name.text, rfl⟩

/-- The chunk starts and ends on rows of the tree. -/
def IsInRowsOf (tree : SyntaxTree) (chunk : Chunk) : Prop :=
  tree.start.row + 1 ≤ chunk.startLine ∧ chunk.startLine ≤ chunk.endLine ∧
    chunk.endLine ≤ tree.stop.row + 1

theorem isInRowsOf_ofDefinition {tree : SyntaxTree} (hlaid : tree.IsLaidOut) (file path : String)
    (kind : ChunkKind) (name : String) (parent : Option (String × String)) :
    IsInRowsOf tree (ofDefinition file path kind tree name parent) :=
  ⟨le_rfl, Nat.succ_le_succ hlaid.nested.keepsRows.forward, le_rfl⟩

theorem IsInRowsOf.mono {inner outer : SyntaxTree} {chunk : Chunk}
    (hchunk : IsInRowsOf inner chunk) (hstart : outer.start.row ≤ inner.start.row)
    (hstop : inner.stop.row ≤ outer.stop.row) : IsInRowsOf outer chunk := by
  obtain ⟨hfirst, hforward, hlast⟩ := hchunk
  exact ⟨by omega, hforward, by omega⟩

structure IsMethodIn (parent : String × String) (definition : SyntaxTree) (chunk : Chunk) :
    Prop where
  kind_eq : chunk.kind = .method
  parentName_eq : chunk.parentName = some parent.1
  parentId_eq : chunk.parentId = some parent.2
  in_rows : IsInRowsOf definition chunk

section Methods

variable {definition : SyntaxTree} (hlaid : definition.IsLaidOut) (file path : String)
  (parent : String × String)

include hlaid

theorem isMethodIn_of_mem_methodsOf {chunk : Chunk}
    (hchunk : chunk ∈ methodsOf file path parent definition) :
    IsMethodIn parent definition chunk := by
  cases hbody : definition.part? .body with
  | none =>
      rw [methodsOf, hbody] at hchunk
      cases hchunk
  | some body =>
      rw [methodsOf_of_body hbody] at hchunk
      obtain ⟨member, hmember, hmethod⟩ := List.mem_filterMap.mp hchunk
      obtain ⟨-, name, rfl⟩ := exists_of_methodOf? hmethod
      have hinside := List.mem_of_find?_eq_some hbody
      have hlaidBody := hlaid.child hinside
      obtain ⟨hstart, hstop⟩ := hlaid.nested.keepsRows.inside body hinside
      obtain ⟨hfirst, hlast⟩ := hlaidBody.nested.keepsRows.inside member hmember
      have hrows := isInRowsOf_ofDefinition (hlaidBody.child hmember) file path .method name
        (some parent)
      exact ⟨rfl, rfl, rfl, hrows.mono (hstart.trans hfirst) (hlast.trans hstop)⟩

theorem pairwise_methodsOf :
    (methodsOf file path parent definition).Pairwise fun first second =>
      first.endLine < second.startLine := by
  cases hbody : definition.part? .body with
  | none =>
      rw [methodsOf, hbody]
      exact List.Pairwise.nil
  | some body =>
      rw [methodsOf_of_body hbody, List.pairwise_filterMap]
      refine (hlaid.child (List.mem_of_find?_eq_some hbody)).pairwise_children.imp ?_
      intro first second hrows one hone other hother
      obtain ⟨hfirst, name, rfl⟩ := exists_of_methodOf? hone
      obtain ⟨hsecond, other, rfl⟩ := exists_of_methodOf? hother
      exact Nat.succ_lt_succ (hrows hfirst hsecond)

end Methods

/-! Statements -/

/-- What the chunks of a statement can be. -/
theorem ofStatement_cases (file path : String) (statement : SyntaxTree) :
    ofStatement file path statement = [] ∨
      ∃ definition name, definitionOf? statement = some definition ∧
        (ofStatement file path statement =
            [ofDefinition file path .function statement name none] ∨
          ofStatement file path statement =
            ofDefinition file path .classDef statement name none ::
              methodsOf file path
                (name, (ofDefinition file path .classDef statement name none).id)
                definition) := by
  unfold ofStatement
  cases hdefinition : definitionOf? statement with
  | none => exact .inl rfl
  | some definition =>
      dsimp only
      cases definition.part? .name with
      | none => exact .inl rfl
      | some name =>
          refine .inr ⟨definition, name.text, rfl, ?_⟩
          dsimp only
          split
          · exact .inl rfl
          · exact .inr rfl

/-- Every chunk of a statement is the chunk of a definition in it. -/
theorem exists_definition_of_mem_ofStatement {file path : String} {statement : SyntaxTree}
    {chunk : Chunk} (hchunk : chunk ∈ ofStatement file path statement) :
    ∃ kind tree name parent, kind ≠ .fileLevel ∧ tree ∈ statement.preorder ∧
      chunk = ofDefinition file path kind tree name parent := by
  have hwhole := SyntaxTree.mem_preorder_self statement
  rcases ofStatement_cases file path statement with
    hnone | ⟨definition, name, hdefinition, hfunction | hclass⟩
  · rw [hnone] at hchunk
    cases hchunk
  · rw [hfunction] at hchunk
    obtain rfl := List.mem_singleton.mp hchunk
    exact ⟨.function, statement, name, none, by decide, hwhole, rfl⟩
  · rw [hclass] at hchunk
    rcases List.mem_cons.mp hchunk with rfl | hmethod
    · exact ⟨.classDef, statement, name, none, by decide, hwhole, rfl⟩
    · cases hbody : definition.part? .body with
      | none =>
          rw [methodsOf, hbody] at hmethod
          cases hmethod
      | some body =>
          rw [methodsOf_of_body hbody] at hmethod
          obtain ⟨member, hmember, hfound⟩ := List.mem_filterMap.mp hmethod
          obtain ⟨-, other, rfl⟩ := exists_of_methodOf? hfound
          refine ⟨.method, member, other, _, by decide, ?_, rfl⟩
          refine mem_preorder_of_definitionOf? hdefinition ?_
          exact SyntaxTree.mem_preorder_of_child (List.mem_of_find?_eq_some hbody)
            (SyntaxTree.mem_preorder_of_child hmember (SyntaxTree.mem_preorder_self member))

/-- The first chunk ends before the second, or is the class that has it as a method. -/
def Precedes (first second : Chunk) : Prop :=
  first.endLine < second.startLine ∨
    first.kind = .classDef ∧ second.kind = .method ∧ second.parentId = some first.id ∧
      first.startLine ≤ second.startLine ∧ second.endLine ≤ first.endLine

/-- A method comes behind the chunk of its class, whose lines hold it; nothing else has a
parent. -/
def HasParentIn (chunks : List Chunk) (chunk : Chunk) : Prop :=
  if chunk.kind = .method then
    ∃ owner, [owner, chunk].Sublist chunks ∧ owner.kind = .classDef ∧
      chunk.parentId = some owner.id ∧ chunk.parentName = some owner.name ∧
      owner.startLine ≤ chunk.startLine ∧ chunk.endLine ≤ owner.endLine
  else chunk.parentId = none ∧ chunk.parentName = none

theorem HasParentIn.mono {few many : List Chunk} {chunk : Chunk} (hparent : HasParentIn few chunk)
    (hsublist : few.Sublist many) : HasParentIn many chunk := by
  unfold HasParentIn at hparent ⊢
  split at hparent
  · next hmethod =>
      rw [if_pos hmethod]
      obtain ⟨owner, hbefore, howner⟩ := hparent
      exact ⟨owner, hbefore.trans hsublist, howner⟩
  · next hother =>
      rw [if_neg hother]
      exact hparent

section Statement

variable {statement : SyntaxTree} (hlaid : statement.IsLaidOut) (file path : String)

include hlaid

/-- The methods of a class lie in the rows of its statement. -/
theorem isMethodIn_statement {definition : SyntaxTree} {parent : String × String}
    (hdefinition : definitionOf? statement = some definition) {chunk : Chunk}
    (hchunk : chunk ∈ methodsOf file path parent definition) :
    IsMethodIn parent statement chunk := by
  obtain ⟨hlaidInside, hstart, hstop⟩ := hlaid.definitionOf? hdefinition
  have hmethod := isMethodIn_of_mem_methodsOf hlaidInside file path parent hchunk
  exact { hmethod with in_rows := hmethod.in_rows.mono hstart hstop }

theorem isInRowsOf_of_mem_ofStatement {chunk : Chunk}
    (hchunk : chunk ∈ ofStatement file path statement) : IsInRowsOf statement chunk := by
  rcases ofStatement_cases file path statement with
    hnone | ⟨definition, name, hdefinition, hfunction | hclass⟩
  · rw [hnone] at hchunk
    cases hchunk
  · rw [hfunction] at hchunk
    obtain rfl := List.mem_singleton.mp hchunk
    exact isInRowsOf_ofDefinition hlaid file path .function name none
  · rw [hclass] at hchunk
    rcases List.mem_cons.mp hchunk with rfl | hmethod
    · exact isInRowsOf_ofDefinition hlaid file path .classDef name none
    · exact (isMethodIn_statement hlaid file path hdefinition hmethod).in_rows

theorem pairwise_ofStatement : (ofStatement file path statement).Pairwise Precedes := by
  rcases ofStatement_cases file path statement with
    hnone | ⟨definition, name, hdefinition, hfunction | hclass⟩
  · rw [hnone]
    exact List.Pairwise.nil
  · rw [hfunction]
    exact List.pairwise_singleton _ _
  · rw [hclass, List.pairwise_cons]
    refine ⟨fun chunk hchunk => .inr ?_, (pairwise_methodsOf
      (hlaid.definitionOf? hdefinition).1 file path _).imp .inl⟩
    have hmethod := isMethodIn_statement hlaid file path hdefinition hchunk
    exact ⟨rfl, hmethod.kind_eq, hmethod.parentId_eq, hmethod.in_rows.1, hmethod.in_rows.2.2⟩

theorem hasParentIn_ofStatement {chunk : Chunk}
    (hchunk : chunk ∈ ofStatement file path statement) :
    HasParentIn (ofStatement file path statement) chunk := by
  rcases ofStatement_cases file path statement with
    hnone | ⟨definition, name, hdefinition, hfunction | hclass⟩
  · rw [hnone] at hchunk
    cases hchunk
  · rw [hfunction] at hchunk
    obtain rfl := List.mem_singleton.mp hchunk
    exact ⟨rfl, rfl⟩
  · rw [hclass] at hchunk ⊢
    rcases List.mem_cons.mp hchunk with rfl | hmem
    · exact ⟨rfl, rfl⟩
    · have hmethod := isMethodIn_statement hlaid file path hdefinition hmem
      rw [HasParentIn, if_pos hmethod.kind_eq]
      exact ⟨_, (List.singleton_sublist.mpr hmem).cons_cons _, rfl, hmethod.parentId_eq,
        hmethod.parentName_eq, hmethod.in_rows.1, hmethod.in_rows.2.2⟩

end Statement

/-! Files -/

section File

variable {root : SyntaxTree} (hlaid : root.IsLaidOut) (file path text : String)

theorem isSome_of_mem_ofStatement {statement : SyntaxTree} {chunk : Chunk}
    (hchunk : chunk ∈ ofStatement file path statement) : (definitionOf? statement).isSome := by
  rcases ofStatement_cases file path statement with hnone | ⟨definition, name, hdefinition, -⟩
  · rw [hnone] at hchunk
    cases hchunk
  · exact Option.isSome_of_eq_some hdefinition

/-- A chunk is that of the file, or of a definition in it. -/
theorem exists_definition_of_mem_ofTree {chunk : Chunk}
    (hchunk : chunk ∈ ofTree file path text root) :
    chunk = ofFileLevel file path text root ∨
      ∃ kind tree name parent, kind ≠ .fileLevel ∧ tree ∈ root.preorder ∧
        chunk = ofDefinition file path kind tree name parent := by
  rcases List.mem_append.mp hchunk with hfile | hstatement
  · split at hfile
    · exact .inl (List.mem_singleton.mp hfile)
    · cases hfile
  · obtain ⟨statement, hchild, hmem⟩ := List.mem_flatMap.mp hstatement
    obtain ⟨kind, tree, name, parent, hkind, htree, hsame⟩ :=
      exists_definition_of_mem_ofStatement hmem
    exact .inr ⟨kind, tree, name, parent, hkind, SyntaxTree.mem_preorder_of_child hchild htree,
      hsame⟩

theorem id_of_mem_ofTree {chunk : Chunk} (hchunk : chunk ∈ ofTree file path text root) :
    ∃ parent name,
      chunk.id = chunkId file chunk.startLine chunk.endLine chunk.kind parent name := by
  rcases exists_definition_of_mem_ofTree file path text hchunk with
    rfl | ⟨kind, tree, name, parent, -, -, rfl⟩
  · exact ⟨none, none, rfl⟩
  · exact ⟨parent.map Prod.fst, some name, rfl⟩

/-- Chunks of different kinds or lines have different ids. -/
theorem id_ne_of_mem_ofTree {first second : Chunk} (hfirst : first ∈ ofTree file path text root)
    (hsecond : second ∈ ofTree file path text root)
    (hapart : first.kind = second.kind → first.startLine ≠ second.startLine) :
    first.id ≠ second.id := by
  intro hsame
  obtain ⟨_, _, hone⟩ := id_of_mem_ofTree file path text hfirst
  obtain ⟨_, _, hother⟩ := id_of_mem_ofTree file path text hsecond
  rw [hone, hother] at hsame
  obtain ⟨hstart, -, hkind⟩ := lines_of_chunkId hsame
  exact hapart hkind hstart

include hlaid

/-- Chunks of the definitions of a file come in source order. -/
theorem pairwise_flatMap_ofStatement :
    (root.children.flatMap (ofStatement file path)).Pairwise Precedes := by
  rw [List.pairwise_flatMap]
  refine ⟨fun statement hchild => pairwise_ofStatement (hlaid.child hchild) file path, ?_⟩
  refine hlaid.pairwise_children.imp_of_mem fun {first second} hfirst hsecond hrows one hone
    other hother => .inl ?_
  have hone' := isInRowsOf_of_mem_ofStatement (hlaid.child hfirst) file path hone
  have hother' := isInRowsOf_of_mem_ofStatement (hlaid.child hsecond) file path hother
  have hlt := hrows (isSome_of_mem_ofStatement file path hone)
    (isSome_of_mem_ofStatement file path hother)
  exact Nat.lt_of_le_of_lt hone'.2.2 (Nat.lt_of_lt_of_le (Nat.succ_lt_succ hlt) hother'.1)

theorem lines_of_mem_ofTree {chunk : Chunk} (hchunk : chunk ∈ ofTree file path text root) :
    1 ≤ chunk.startLine ∧ chunk.startLine ≤ chunk.endLine := by
  rcases List.mem_append.mp hchunk with hfile | hstatement
  · split at hfile
    · obtain rfl := List.mem_singleton.mp hfile
      exact ⟨le_rfl, Nat.le_max_left 1 _⟩
    · cases hfile
  · obtain ⟨statement, hchild, hmem⟩ := List.mem_flatMap.mp hstatement
    have hrows := isInRowsOf_of_mem_ofStatement (hlaid.child hchild) file path hmem
    exact ⟨Nat.le_trans (Nat.le_add_left 1 _) hrows.1, hrows.2.1⟩

/-- Behind the chunk of the file, if it has one, come those of its definitions. -/
theorem pairwise_ofTree :
    (ofTree file path text root).Pairwise fun first second =>
      second.kind ≠ .fileLevel ∧ (first.kind = .fileLevel ∨ Precedes first second) := by
  have hkinds : ∀ chunk ∈ root.children.flatMap (ofStatement file path),
      chunk.kind ≠ .fileLevel := by
    intro chunk hchunk
    obtain ⟨statement, -, hmem⟩ := List.mem_flatMap.mp hchunk
    obtain ⟨kind, tree, name, parent, hkind, -, rfl⟩ := exists_definition_of_mem_ofStatement hmem
    exact hkind
  rw [ofTree, List.pairwise_append]
  refine ⟨?_, (pairwise_flatMap_ofStatement hlaid file path).imp_of_mem
    fun _ hsecond hprecedes => ⟨hkinds _ hsecond, .inr hprecedes⟩, ?_⟩
  · split
    · exact List.pairwise_singleton _ _
    · exact List.Pairwise.nil
  · intro first hfirst second hsecond
    refine ⟨hkinds second hsecond, .inl ?_⟩
    split at hfirst
    · obtain rfl := List.mem_singleton.mp hfirst
      rfl
    · cases hfirst

theorem nodup_ids_ofTree : ((ofTree file path text root).map Chunk.id).Nodup := by
  refine List.pairwise_map.mpr ((pairwise_ofTree hlaid file path text).imp_of_mem ?_)
  rintro first second hfirst hsecond ⟨hkind, hprecedes⟩
  refine id_ne_of_mem_ofTree file path text hfirst hsecond fun hsame hline => ?_
  have hforward := (lines_of_mem_ofTree hlaid file path text hfirst).2
  rcases hprecedes with hfile | hbefore | ⟨hclass, hmethod, -⟩
  · exact hkind (hsame.symm.trans hfile)
  · omega
  · cases hclass.symm.trans (hsame.trans hmethod)

theorem hasParentIn_ofTree {chunk : Chunk} (hchunk : chunk ∈ ofTree file path text root) :
    HasParentIn (ofTree file path text root) chunk := by
  rcases List.mem_append.mp hchunk with hfile | hstatement
  · split at hfile
    · obtain rfl := List.mem_singleton.mp hfile
      exact ⟨rfl, rfl⟩
    · cases hfile
  · obtain ⟨statement, hchild, hmem⟩ := List.mem_flatMap.mp hstatement
    refine (hasParentIn_ofStatement (hlaid.child hchild) file path hmem).mono ?_
    exact (List.sublist_flatten_of_mem (List.mem_map_of_mem hchild)).trans
      (List.sublist_append_right _ _)

end File

/-- How the chunks of a file are listed. -/
structure IsListing (chunks : List Chunk) : Prop where
  ids_nodup : (chunks.map Chunk.id).Nodup
  lines : ∀ chunk ∈ chunks, 1 ≤ chunk.startLine ∧ chunk.startLine ≤ chunk.endLine
  file_first : ∀ chunk ∈ chunks.tail, chunk.kind ≠ .fileLevel
  in_order : chunks.Pairwise fun first second => first.kind = .fileLevel ∨ Precedes first second
  parents : ∀ chunk ∈ chunks, HasParentIn chunks chunk

/-- The chunks of a file have ids of their own and lines in order.  The chunk of the file itself
comes first, the others in source order, each method behind the class that it belongs to. -/
theorem chunks_are_listed {root : SyntaxTree} (hlaid : root.IsLaidOut)
    (file path source : String) :
    IsListing (ofTree (Text.forwardSlashes file) path source root) ∧
      (parse? source = some root → ofSource? file path source =
        some (ofTree (Text.forwardSlashes file) path source root)) := by
  refine ⟨?_, fun hroot => by rw [ofSource?, hroot]; rfl⟩
  have horder := pairwise_ofTree hlaid (Text.forwardSlashes file) path source
  refine ⟨nodup_ids_ofTree hlaid _ path source,
    fun chunk => lines_of_mem_ofTree hlaid _ path source, ?_, horder.imp And.right,
    fun chunk => hasParentIn_ofTree hlaid _ path source⟩
  cases hchunks : ofTree (Text.forwardSlashes file) path source root with
  | nil => exact nofun
  | cons first others =>
      rw [hchunks, List.pairwise_cons] at horder
      exact fun chunk hchunk => (horder.1 chunk hchunk).1

/-- A file with code of its own, a class with a decorated method and a function that is defined
twice. -/
theorem chunks_are_listed_of_redefinition :
    let source := "a()\nclass A:\n @b\n def f(): c\ndef f(): c\ndef f(): c"
    ∃ chunks, ofSource? "m.py" "m.py" source = some chunks ∧ IsListing chunks ∧
      chunks.map Chunk.id = ["m.py:1-6:module", "m.py:2-4:class:A", "m.py:3-4:method:A.f",
        "m.py:5-5:function:f", "m.py:6-6:function:f"] := by
  intro source
  have hshape : (do
      let root ← parse? source
      pure (decide root.Nested, decide root.KeepsDefinitionsApart,
        (ofTree (Text.forwardSlashes "m.py") "m.py" source root).map Chunk.id)) =
      some (true, true, ["m.py:1-6:module", "m.py:2-4:class:A", "m.py:3-4:method:A.f",
        "m.py:5-5:function:f", "m.py:6-6:function:f"]) := by
    decide +kernel
  simp only [Option.bind_eq_bind, Option.bind_eq_some_iff, Option.pure_def, Option.some.injEq,
    Prod.mk.injEq, decide_eq_true_eq] at hshape
  obtain ⟨root, hroot, hnested, hapart, hids⟩ := hshape
  obtain ⟨hlisted, hchunks⟩ := chunks_are_listed ⟨hnested, hapart⟩ "m.py" "m.py" source
  exact ⟨_, hchunks hroot, hlisted, hids⟩

end Chunk

end CodeGraph
