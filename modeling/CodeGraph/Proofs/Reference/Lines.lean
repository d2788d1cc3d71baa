import CodeGraph.Proofs.Chunk.Layout
import CodeGraph.Proofs.Chunk.Outdent
import CodeGraph.Proofs.Reference.Walk
import CodeGraph.Proofs.Syntax.Parse
import Mathlib.Data.List.Pairwise

namespace CodeGraph

open Syntax Names

/-! The lines of references.  A reference has the line of the file on which the node that makes it
stands, and the references of a chunk come in the order of their lines. -/

namespace Reference

/-! Lines in the walk -/

theorem madeAt_of_mem_madeBy {origin : Origin} {current : Option String} {state : Walk}
    {tree : SyntaxTree} {reference : Reference}
    (hmem : reference ∈ madeBy origin current state tree) : MadeAt origin tree reference := by
  unfold madeBy at hmem
  split at hmem
  · exact madeAt_of_mem_filterMap hmem
  · split at hmem
    · exact madeAt_of_mem_filterMap hmem
    · cases hmem
  · exact madeAt_of_mem_ofNode hmem

theorem line_of_mem_walkAll {origin : Origin} {current : Option String} {depth : Nat}
    {state : Walk} {trees : List SyntaxTree} (hnested : ∀ tree ∈ trees, tree.Nested)
    {reference : Reference} (hmem : reference ∈ (walkAll origin current depth state trees).1) :
    ∃ tree ∈ trees, origin.startLine + tree.start.row ≤ reference.line := by
  obtain ⟨place, hplace, -, hmade⟩ := exists_madeAt_of_mem_walkAll hmem
  obtain ⟨tree, htree, hstart, -⟩ := SyntaxTree.Nested.rows_of_mem_preorderAll hnested hplace
  exact ⟨tree, htree, hmade.line_eq ▸ Nat.add_le_add_left hstart _⟩

theorem line_of_mem_walk {origin : Origin} {current : Option String} {depth : Nat}
    {state : Walk} {tree : SyntaxTree} (hnested : tree.Nested) {reference : Reference}
    (hmem : reference ∈ (walk origin current depth state tree).1) :
    reference.line ≤ origin.startLine + tree.stop.row := by
  obtain ⟨place, hplace, -, hmade⟩ := exists_madeAt_of_mem_walk hmem
  have hforward := (hnested place hplace).forward
  have hstop := (hnested.rows_of_mem hplace).2
  rw [hmade.line_eq]
  omega

/-- The lines of the references never go back. -/
def InLineOrder (references : List Reference) : Prop :=
  references.Pairwise fun first second => first.line ≤ second.line

mutual

/-- A node comes before all that is in it. -/
theorem inLineOrder_walk (origin : Origin) (current : Option String) (depth : Nat) (state : Walk)
    {tree : SyntaxTree} (hnested : tree.Nested) :
    InLineOrder (walk origin current depth state tree).1 := by
  cases hskipped : isSkipped origin depth tree.kind with
  | true =>
      rw [walk_of_isSkipped hskipped]
      exact List.Pairwise.nil
  | false =>
      cases tree with
      | node kind role start stop text children =>
          have hbelow := inLineOrder_walkAll origin
            (classInside current (.node kind role start stop text children)) (depth + 1)
            (state.enter (.node kind role start stop text children))
            (fun child hchild => hnested.child hchild) hnested.keepsRows.in_order
          rw [walk_of_not_isSkipped hskipped]
          refine List.pairwise_append.mpr ⟨?_, hbelow, ?_⟩
          · refine List.pairwise_of_forall_mem_list fun first hfirst second hsecond => ?_
            rw [(madeAt_of_mem_madeBy hfirst).line_eq, (madeAt_of_mem_madeBy hsecond).line_eq]
          · intro first hfirst second hsecond
            obtain ⟨child, hchild, hline⟩ :=
              line_of_mem_walkAll (fun child hchild => hnested.child hchild) hsecond
            have hinside := (hnested.keepsRows.inside child hchild).1
            rw [(madeAt_of_mem_madeBy hfirst).line_eq]
            omega

theorem inLineOrder_walkAll (origin : Origin) (current : Option String) (depth : Nat)
    (state : Walk) {trees : List SyntaxTree} (hnested : ∀ tree ∈ trees, tree.Nested)
    (horder : trees.Pairwise fun first second => first.stop.row ≤ second.start.row) :
    InLineOrder (walkAll origin current depth state trees).1 := by
  cases trees with
  | nil =>
      rw [walkAll]
      exact List.Pairwise.nil
  | cons tree rest =>
      obtain ⟨htree, hrest⟩ := List.forall_mem_cons.mp hnested
      obtain ⟨hbefore, hbehind⟩ := List.pairwise_cons.mp horder
      rw [walkAll_cons]
      refine List.pairwise_append.mpr ⟨inLineOrder_walk origin current depth state htree,
        inLineOrder_walkAll origin current depth _ hrest hbehind, ?_⟩
      intro first hfirst second hsecond
      have hlast := line_of_mem_walk htree hfirst
      obtain ⟨other, hother, hline⟩ := line_of_mem_walkAll hrest hsecond
      have hrows := hbefore other hother
      omega

end

/-! Lines of a chunk -/

theorem holdsWord_or_isDefinition {kind : Kind} (hkind : isReferring kind = true) :
    kind.holdsWord = true ∨ kind.isDefinition = true := by
  simp only [isReferring, List.contains_eq_mem, List.mem_cons, List.not_mem_nil, or_false,
    decide_eq_true_eq] at hkind
  rcases hkind with rfl | rfl | rfl | rfl | rfl | rfl | rfl | rfl <;> decide

/-- A node that makes references is not empty. -/
theorem exists_text_of_isReferring {tree : SyntaxTree} (htree : tree.Grammatical)
    (hkind : isReferring tree.kind = true) : ∃ inner ∈ tree.preorder, inner.text ≠ "" := by
  rcases holdsWord_or_isDefinition hkind with hword | hdefinition
  · obtain ⟨inner, hinner, htext⟩ := htree.formed.exists_text hword
    exact ⟨inner, SyntaxTree.mem_preorder_of_children hinner, htext⟩
  · obtain ⟨name, hname, -, htext⟩ := htree.formed.exists_name hdefinition
    exact ⟨name, SyntaxTree.mem_preorder_of_child (List.mem_of_find?_eq_some hname)
      (SyntaxTree.mem_preorder_self name), htext⟩

/-- Text in a file starts no later than on its last line. -/
theorem line_le_lastLine {source : List Char} {tree : SyntaxTree} (hstands : tree.StandsIn source)
    (htext : tree.text ≠ "") :
    1 + tree.start.row ≤ Chunk.lastLine (Position.origin.afterAll source) := by
  obtain ⟨before, after, rfl, hstart, -⟩ := hstands
  have hrow : (Position.origin.afterAll (before ++ (tree.text.toList ++ after))).row =
      tree.start.row + (tree.text.toList ++ after).count '\n' := by
    rw [Position.row_afterAll, List.count_append, hstart]
    exact Nat.zero_add _
  rw [Chunk.lastLine, hrow]
  by_cases hbreak : '\n' ∈ tree.text.toList ++ after
  · have hlater := List.count_pos_iff.mpr hbreak
    split <;> omega
  · -- the last line holds the text, so that it is not left empty
    have hcolumn := Position.column_afterAll_pos (by simp [htext]) hbreak
      (Position.origin.afterAll before)
    rw [← Position.afterAll_append] at hcolumn
    rw [if_neg (Nat.ne_of_gt hcolumn)]
    omega

/-- The construct of a chunk stands on this line of the file: without the indentation, what the
chunk has before it is what the file has between the start of the chunk and this place. -/
def StandsOnLine (source : String) (chunk : Chunk) (construct : SyntaxTree) (line : Nat) : Prop :=
  ∃ width left skipped before part after rest,
    source.toList = skipped ++ (before ++ (part ++ after)) ∧
      skipped.count '\n' + 1 = chunk.startLine ∧
      (skipped ++ before).count '\n' + 1 = line ∧
      chunk.content.toList = outdentFrom width 0 before ++ (construct.text.toList ++ rest) ∧
      construct.start.row = (outdentFrom width 0 before).count '\n' ∧
      construct.text.toList = outdentFrom width left part

theorem standsOnLine_ofDefinition {source : String} {tree : SyntaxTree}
    (htree : tree.StandsIn source.toList) {chunk : Chunk}
    (hstart : chunk.startLine = tree.start.row + 1) (hcontent : chunk.content = outdented tree)
    {construct : SyntaxTree} (hconstruct : construct.StandsIn chunk.content.toList) :
    StandsOnLine source chunk construct (chunk.startLine + construct.start.row) := by
  obtain ⟨skipped, behind, hsource, hrow, -⟩ := htree
  obtain ⟨shown, rest, hshown, hline, -⟩ := hconstruct
  have htext := hshown
  rw [hcontent, outdented_eq] at htext
  obtain ⟨before, later, next, hbefore, rfl, hlater⟩ := outdentFrom_eq_append htext
  obtain ⟨part, after, last, rfl, hpart, -⟩ := outdentFrom_eq_append hlater
  refine ⟨tree.start.column, next, skipped, before, part, after ++ behind, rest, ?_, ?_, ?_,
    hshown, hline, hpart.symm⟩
  · rw [hsource, hbefore]
    simp only [List.append_assoc]
  · rw [hstart, hrow]
  · rw [hline, count_outdentFrom, List.count_append, hstart, hrow]
    exact Nat.add_right_comm _ _ 1

theorem line_le_endLine_ofDefinition {source : String} {tree : SyntaxTree}
    (htree : tree.StandsIn source.toList) {chunk : Chunk}
    (hstart : chunk.startLine = tree.start.row + 1) (hend : chunk.endLine = tree.stop.row + 1)
    (hcontent : chunk.content = outdented tree) {construct : SyntaxTree}
    (hconstruct : construct.StandsIn chunk.content.toList) :
    chunk.startLine + construct.start.row ≤ chunk.endLine := by
  obtain ⟨skipped, behind, -, hfirst, hlast⟩ := htree
  obtain ⟨shown, rest, hshown, hline, -⟩ := hconstruct
  have hcount : tree.text.toList.count '\n' = chunk.content.toList.count '\n' := by
    rw [hcontent, outdented_eq, count_outdentFrom]
  rw [hshown, List.count_append] at hcount
  omega

theorem standsOnLine_ofFileLevel {source : String} {chunk : Chunk} (hstart : chunk.startLine = 1)
    (hcontent : chunk.content = source) {construct : SyntaxTree}
    (hconstruct : construct.StandsIn chunk.content.toList) :
    StandsOnLine source chunk construct (chunk.startLine + construct.start.row) := by
  obtain ⟨before, after, hshown, hline, -⟩ := hconstruct
  refine ⟨0, 0, [], before, construct.text.toList, after, after, ?_, hstart.symm, ?_, ?_, ?_,
    (outdentFrom_zero _).symm⟩
  · rw [← hcontent, hshown]
    rfl
  · rw [hstart, hline]
    exact Nat.add_comm _ 1
  · rw [outdentFrom_zero, hshown]
  · rw [outdentFrom_zero, hline]

theorem ofChunk?_of_parse (read? : String → Option String) (cache : ContextCache) {chunk : Chunk}
    (hlanguage : chunk.language = Language.python.name) {root : SyntaxTree}
    (hroot : parse? chunk.content = some root) :
    (ofChunk? read? cache chunk).1 =
      some (ofTree chunk (cache.getOrBuild read? chunk.path chunk.content).1 root) := by
  have hpython : Language.ofName? chunk.language = some .python := by
    rw [hlanguage]
    rfl
  rw [ofChunk?, hpython]
  dsimp only
  rw [hroot]

theorem line_le_endLine_ofFileLevel {source : String} {root : SyntaxTree} (hroot : root.Grammatical)
    (hplaced : root.IsPlacedOver source) {construct : SyntaxTree}
    (hconstruct : construct ∈ root.preorder) (hkind : isReferring construct.kind = true) :
    1 + construct.start.row ≤ Chunk.lastLine (Position.origin.afterAll source.toList) := by
  have hgrammatical : construct.Grammatical := fun below hbelow =>
    hroot below (SyntaxTree.mem_preorder_trans hconstruct hbelow)
  have hnested : construct.Nested := fun below hbelow =>
    hplaced.nested below (SyntaxTree.mem_preorder_trans hconstruct hbelow)
  obtain ⟨inner, hinner, htext⟩ := exists_text_of_isReferring hgrammatical hkind
  have hstands := hplaced.stands inner (SyntaxTree.mem_preorder_trans hconstruct hinner)
  have hlast := line_le_lastLine hstands htext
  have hrows := (hnested.rows_of_mem hinner).1
  omega

end Reference

end CodeGraph
