import CodeGraph.Proofs.Syntax.Grammatical

namespace CodeGraph.Syntax

/-! Where the nodes of a tree stand in its text: children lie inside of their parent, one after the
other, and rows count line breaks. -/

theorem Position.row_afterAll (place : Position) (text : List Char) :
    (place.afterAll text).row = place.row + text.count '\n' := by
  induction text generalizing place with
  | nil => rfl
  | cons c rest ih =>
      rw [afterAll_cons, ih, after]
      split
      · next hbreak =>
          rw [hbreak, List.count_cons_self]
          exact Nat.add_right_comm _ 1 _
      · next hother => rw [List.count_cons_of_ne hother]

theorem Position.afterAll_append (place : Position) (first second : List Char) :
    place.afterAll (first ++ second) = (place.afterAll first).afterAll second :=
  List.foldl_append

theorem Position.column_le_afterAll {text : List Char} (htext : '\n' ∉ text) (place : Position) :
    place.column ≤ (place.afterAll text).column := by
  induction text generalizing place with
  | nil => exact Nat.le_refl _
  | cons c rest ih =>
      obtain ⟨hfirst, hrest⟩ := List.ne_and_not_mem_of_not_mem_cons htext
      rw [afterAll_cons]
      refine Nat.le_trans ?_ (ih hrest _)
      rw [after, if_neg hfirst.symm]
      exact Nat.le_add_right _ _

/-- Some text without a line break leads away from the start of a line. -/
theorem Position.column_afterAll_pos {text : List Char} (hne : text ≠ []) (htext : '\n' ∉ text)
    (place : Position) : 0 < (place.afterAll text).column := by
  cases text with
  | nil => exact absurd rfl hne
  | cons c rest =>
      obtain ⟨hfirst, hrest⟩ := List.ne_and_not_mem_of_not_mem_cons htext
      rw [afterAll_cons]
      refine Nat.lt_of_lt_of_le ?_ (column_le_afterAll hrest _)
      rw [after, if_neg hfirst.symm]
      exact Nat.lt_add_left _ (Char.utf8Size_pos c)

namespace SyntaxTree

theorem mem_preorder_of_child {tree child inner : SyntaxTree} (hchild : child ∈ tree.children)
    (hinner : inner ∈ child.preorder) : inner ∈ tree.preorder :=
  mem_preorder_of_children (mem_preorderAll.mpr ⟨child, hchild, hinner⟩)

mutual

theorem mem_preorder_trans {tree inner below : SyntaxTree} (hinner : inner ∈ tree.preorder)
    (hbelow : below ∈ inner.preorder) : below ∈ tree.preorder := by
  cases tree with
  | node kind role start stop text children =>
      rw [preorder_node] at hinner
      rcases List.mem_cons.mp hinner with rfl | hchildren
      · exact hbelow
      · exact mem_preorder_of_children (mem_preorderAll_trans hchildren hbelow)

theorem mem_preorderAll_trans {trees : List SyntaxTree} {inner below : SyntaxTree}
    (hinner : inner ∈ preorderAll trees) (hbelow : below ∈ inner.preorder) :
    below ∈ preorderAll trees := by
  cases trees with
  | nil =>
      rw [preorderAll_nil] at hinner
      cases hinner
  | cons tree rest =>
      rw [preorderAll_cons] at hinner ⊢
      rcases List.mem_append.mp hinner with hfirst | hothers
      · exact List.mem_append_left _ (mem_preorder_trans hfirst hbelow)
      · exact List.mem_append_right _ (mem_preorderAll_trans hothers hbelow)

end

/-- A node runs forward, and its children lie inside of it in order, as far as rows tell. -/
structure KeepsRows (tree : SyntaxTree) : Prop where
  forward : tree.start.row ≤ tree.stop.row
  inside : ∀ child ∈ tree.children,
    tree.start.row ≤ child.start.row ∧ child.stop.row ≤ tree.stop.row
  in_order : tree.children.Pairwise fun first second => first.stop.row ≤ second.start.row

instance (tree : SyntaxTree) : Decidable tree.KeepsRows :=
  decidable_of_iff (tree.start.row ≤ tree.stop.row ∧
      (∀ child ∈ tree.children,
        tree.start.row ≤ child.start.row ∧ child.stop.row ≤ tree.stop.row) ∧
      tree.children.Pairwise fun first second => first.stop.row ≤ second.start.row)
    ⟨fun ⟨hforward, hinside, horder⟩ => ⟨hforward, hinside, horder⟩,
      fun hkeeps => ⟨hkeeps.forward, hkeeps.inside, hkeeps.in_order⟩⟩

/-- The nodes of the tree are nested in source order. -/
def Nested (tree : SyntaxTree) : Prop :=
  ∀ inner ∈ tree.preorder, inner.KeepsRows

instance (tree : SyntaxTree) : Decidable tree.Nested :=
  inferInstanceAs (Decidable (∀ inner ∈ tree.preorder, inner.KeepsRows))

theorem Nested.keepsRows {tree : SyntaxTree} (hnested : tree.Nested) : tree.KeepsRows :=
  hnested tree (mem_preorder_self tree)

theorem Nested.child {tree child : SyntaxTree} (hnested : tree.Nested)
    (hchild : child ∈ tree.children) : child.Nested :=
  fun inner hinner => hnested inner (mem_preorder_of_child hchild hinner)

mutual

/-- Whatever is in a node lies in its rows. -/
theorem Nested.rows_of_mem {tree inner : SyntaxTree} (hnested : tree.Nested)
    (hinner : inner ∈ tree.preorder) :
    tree.start.row ≤ inner.start.row ∧ inner.stop.row ≤ tree.stop.row := by
  cases tree with
  | node kind role start stop text children =>
      rw [preorder_node] at hinner
      rcases List.mem_cons.mp hinner with rfl | hbelow
      · exact ⟨Nat.le_refl _, Nat.le_refl _⟩
      · obtain ⟨child, hchild, hstart, hstop⟩ :=
          Nested.rows_of_mem_preorderAll (fun child hchild => hnested.child hchild) hbelow
        obtain ⟨hfirst, hlast⟩ := hnested.keepsRows.inside child hchild
        exact ⟨Nat.le_trans hfirst hstart, Nat.le_trans hstop hlast⟩

theorem Nested.rows_of_mem_preorderAll {trees : List SyntaxTree} {inner : SyntaxTree}
    (hnested : ∀ tree ∈ trees, tree.Nested) (hinner : inner ∈ preorderAll trees) :
    ∃ tree ∈ trees, tree.start.row ≤ inner.start.row ∧ inner.stop.row ≤ tree.stop.row := by
  cases trees with
  | nil =>
      rw [preorderAll_nil] at hinner
      cases hinner
  | cons tree rest =>
      obtain ⟨htree, hrest⟩ := List.forall_mem_cons.mp hnested
      rw [preorderAll_cons] at hinner
      rcases List.mem_append.mp hinner with hfirst | hothers
      · exact ⟨tree, List.mem_cons_self, htree.rows_of_mem hfirst⟩
      · obtain ⟨other, hother, hrows⟩ := Nested.rows_of_mem_preorderAll hrest hothers
        exact ⟨other, List.mem_cons_of_mem tree hother, hrows⟩

end

/-- The text of the node is a part of the whole text, and its rows count the line breaks up to
where it starts and ends. -/
def StandsIn (text : List Char) (tree : SyntaxTree) : Prop :=
  ∃ before after, text = before ++ (tree.text.toList ++ after) ∧
    tree.start.row = before.count '\n' ∧
    tree.stop.row = before.count '\n' + tree.text.toList.count '\n'

theorem standsIn_iff {text : List Char} {tree : SyntaxTree} :
    tree.StandsIn text ↔ ∃ size < text.length + 1,
      tree.text.toList.isPrefixOf (text.drop size) = true ∧
        tree.start.row = (text.take size).count '\n' ∧
        tree.stop.row = (text.take size).count '\n' + tree.text.toList.count '\n' := by
  constructor
  · rintro ⟨before, after, rfl, hstart, hstop⟩
    have hsize : before.length < (before ++ (tree.text.toList ++ after)).length + 1 := by
      rw [List.length_append]
      omega
    refine ⟨before.length, hsize, ?_, by simpa using hstart, by simpa using hstop⟩
    rw [List.drop_left, List.isPrefixOf_iff_prefix]
    exact List.prefix_append _ _
  · rintro ⟨size, -, hbelow, hstart, hstop⟩
    obtain ⟨after, hafter⟩ := List.isPrefixOf_iff_prefix.mp hbelow
    exact ⟨text.take size, after, by rw [hafter, List.take_append_drop], hstart, hstop⟩

instance (text : List Char) (tree : SyntaxTree) : Decidable (tree.StandsIn text) :=
  decidable_of_iff _ standsIn_iff.symm

/-- The tree is laid over the text. -/
structure IsPlacedOver (text : String) (tree : SyntaxTree) : Prop where
  nested : tree.Nested
  stands : ∀ inner ∈ tree.preorder, inner.StandsIn text.toList

instance (text : String) (tree : SyntaxTree) : Decidable (tree.IsPlacedOver text) :=
  decidable_of_iff (tree.Nested ∧ ∀ inner ∈ tree.preorder, inner.StandsIn text.toList)
    ⟨fun ⟨hnested, hstands⟩ => ⟨hnested, hstands⟩,
      fun hplaced => ⟨hplaced.nested, hplaced.stands⟩⟩

end SyntaxTree

end CodeGraph.Syntax
