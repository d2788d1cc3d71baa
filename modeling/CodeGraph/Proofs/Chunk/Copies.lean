import CodeGraph.Proofs.Names.Outline
import CodeGraph.Proofs.Names.Respacing
import CodeGraph.Proofs.Reference.Arrival

namespace CodeGraph

open Syntax Names

/-! Copies of a part of a tree, as the text of a chunk is parsed to.  A copy has the same leaves, on
lines that are counted from another one, with less indentation in the texts above the leaves. -/

namespace Syntax.SyntaxTree

mutual

/-- The tree as it reads without up to `width` blanks at the start of its later lines, and `rows`
rows further down.  Leaves keep their texts; of the positions only the rows are kept. -/
def shifted (width rows : Nat) : SyntaxTree → SyntaxTree
  | node kind role start _ text children =>
      node kind role { Position.origin with row := start.row + rows } .origin
        (if children.isEmpty then text else String.ofList (outdentFrom width 0 text.toList))
        (shiftedAll width rows children)

def shiftedAll (width rows : Nat) : List SyntaxTree → List SyntaxTree
  | [] => []
  | tree :: rest => tree.shifted width rows :: shiftedAll width rows rest

end

theorem shiftedAll_eq (width rows : Nat) (trees : List SyntaxTree) :
    shiftedAll width rows trees = trees.map (shifted width rows) := by
  induction trees with
  | nil => rw [shiftedAll, List.map_nil]
  | cons tree rest ih => rw [shiftedAll, ih, List.map_cons]

@[simp] theorem kind_shifted (width rows : Nat) (tree : SyntaxTree) :
    (tree.shifted width rows).kind = tree.kind := by
  cases tree
  rw [shifted]
  rfl

@[simp] theorem role_shifted (width rows : Nat) (tree : SyntaxTree) :
    (tree.shifted width rows).role = tree.role := by
  cases tree
  rw [shifted]
  rfl

@[simp] theorem row_shifted (width rows : Nat) (tree : SyntaxTree) :
    (tree.shifted width rows).start.row = tree.start.row + rows := by
  cases tree
  rw [shifted]
  rfl

theorem text_shifted (width rows : Nat) (tree : SyntaxTree) :
    (tree.shifted width rows).text =
      if tree.children.isEmpty then tree.text
      else String.ofList (outdentFrom width 0 tree.text.toList) := by
  cases tree
  rw [shifted]
  rfl

@[simp] theorem children_shifted (width rows : Nat) (tree : SyntaxTree) :
    (tree.shifted width rows).children = tree.children.map (shifted width rows) := by
  cases tree
  rw [shifted, shiftedAll_eq]
  rfl

theorem text_shifted_zero (rows : Nat) (tree : SyntaxTree) :
    (tree.shifted 0 rows).text = tree.text := by
  rw [text_shifted, outdentFrom_zero, String.ofList_toList, ite_self]

/-- The root holds just the given part of a file, outdented as a whole. -/
def IsCopyOf (root tree : SyntaxTree) : Prop :=
  root.children.map (shifted 0 tree.start.row) = [tree.shifted tree.start.column 0]

instance (root tree : SyntaxTree) : Decidable (root.IsCopyOf tree) :=
  inferInstanceAs (Decidable (_ = _))

/-- What the grammar made stands once more in a copy. -/
structure Copied (width rows : Nat) (original copy : SyntaxTree) : Prop where
  grammatical : original.Grammatical
  same : original.shifted width 0 = copy.shifted 0 rows

theorem IsCopyOf.exists_copied {root tree : SyntaxTree} (hcopy : root.IsCopyOf tree)
    (htree : tree.Grammatical) :
    ∃ copy, root.children = [copy] ∧ Copied tree.start.column tree.start.row tree copy := by
  obtain ⟨copy, hroot, hsame⟩ := List.map_eq_singleton_iff.mp hcopy
  exact ⟨copy, hroot, htree, hsame.symm⟩

theorem forall₂_copied {width rows : Nat} {trees others : List SyntaxTree}
    (hgood : ∀ tree ∈ trees, tree.Grammatical)
    (hsame : trees.map (shifted width 0) = others.map (shifted 0 rows)) :
    List.Forall₂ (Copied width rows) trees others := by
  induction trees generalizing others with
  | nil =>
      rw [List.map_eq_nil_iff.mp hsame.symm]
      exact .nil
  | cons tree rest ih =>
      obtain ⟨htree, hrest⟩ := List.forall_mem_cons.mp hgood
      obtain ⟨other, others, rfl, hfirst, hlater⟩ := List.map_eq_cons_iff.mp hsame.symm
      exact .cons ⟨htree, hfirst.symm⟩ (ih hrest hlater.symm)

theorem rel_getElem? {Related : SyntaxTree → SyntaxTree → Prop} {trees others : List SyntaxTree}
    (hall : List.Forall₂ Related trees others) (index : Nat) :
    Option.Rel Related trees[index]? others[index]? := by
  induction hall generalizing index with
  | nil => exact .none
  | cons hfirst _ ih =>
      cases index with
      | zero => exact .some hfirst
      | succ index => exact ih index

theorem rel_cases {Related : SyntaxTree → SyntaxTree → Prop} {first second : Option SyntaxTree}
    (hrel : Option.Rel Related first second) :
    (first = none ∧ second = none) ∨
      ∃ one other, first = some one ∧ second = some other ∧ Related one other := by
  cases hrel with
  | none => exact .inl ⟨rfl, rfl⟩
  | some hsame => exact .inr ⟨_, _, rfl, rfl, hsame⟩

theorem rel_bind {Related Related' : SyntaxTree → SyntaxTree → Prop}
    {first second : Option SyntaxTree} (hrel : Option.Rel Related first second)
    {next next' : SyntaxTree → Option SyntaxTree}
    (hnext : ∀ {one other}, Related one other → Option.Rel Related' (next one) (next' other)) :
    Option.Rel Related' (first.bind next) (second.bind next') := by
  cases hrel with
  | none => exact .none
  | some hsame => exact hnext hsame

namespace Copied

variable {width rows : Nat} {original copy : SyntaxTree}
variable (hcopied : Copied width rows original copy)

include hcopied

theorem kind_eq : original.kind = copy.kind := by
  simpa using congrArg kind hcopied.same

theorem role_eq : original.role = copy.role := by
  simpa using congrArg role hcopied.same

theorem row_eq : original.start.row = copy.start.row + rows := by
  have hrow := congrArg (fun tree : SyntaxTree => tree.start.row) hcopied.same
  simpa using hrow

theorem children_eq : List.Forall₂ (Copied width rows) original.children copy.children := by
  have hchildren := congrArg children hcopied.same
  rw [children_shifted, children_shifted] at hchildren
  exact forall₂_copied (fun _ => hcopied.grammatical.child) hchildren

theorem text_eq :
    copy.text = if original.children.isEmpty then original.text
      else String.ofList (outdentFrom width 0 original.text.toList) := by
  rw [← text_shifted_zero rows copy, ← hcopied.same, text_shifted]

theorem text_of_leaf (hleaf : original.children = []) : original.text = copy.text := by
  rw [hcopied.text_eq, hleaf]
  rfl

theorem respaced : Text.Respaced original.text.toList copy.text.toList := by
  rw [hcopied.text_eq]
  split
  · exact .refl _
  · rw [String.toList_ofList]
    exact Text.respaced_outdentFrom width _

theorem text_of_identifier (hkind : original.kind = .identifier) : original.text = copy.text := by
  have hformed := hcopied.grammatical.formed
  rw [Formed, hkind] at hformed
  exact hcopied.text_of_leaf hformed.2.2

theorem text_of_one_line (hline : '\n' ∉ original.text.toList) : original.text = copy.text := by
  rw [hcopied.text_eq, outdentFrom_of_not_mem width hline, String.ofList_toList, ite_self]

theorem part? (role : Role) :
    Option.Rel (Copied width rows) (original.part? role) (copy.part? role) := by
  have hfound := rel_find? hcopied.children_eq
    fun {one other} (hchild : Copied width rows one other) =>
      show (one.role == some role) = (other.role == some role) by rw [hchild.role_eq]
  rcases rel_cases hfound with ⟨hnone, hnone'⟩ | ⟨child, found, hchild, hfound, hsame⟩
  · rw [SyntaxTree.part?, SyntaxTree.part?, hnone, hnone']
    exact .none
  · rw [SyntaxTree.part?, SyntaxTree.part?, hchild, hfound]
    exact .some hsame.2

theorem namedChildren :
    List.Forall₂ (Copied width rows) original.namedChildren copy.namedChildren :=
  List.rel_filter (fun _ _ hchild => by simp only [hchild.kind_eq]) hcopied.children_eq

theorem firstNamed? : Option.Rel (Copied width rows) original.firstNamed? copy.firstNamed? := by
  rw [SyntaxTree.firstNamed?, SyntaxTree.firstNamed?, List.head?_eq_getElem?,
    List.head?_eq_getElem?]
  exact rel_getElem? hcopied.namedChildren 0

/-- A leaf that plays a part has the same text in the copy. -/
theorem map_text_part? {role : Role}
    (hleaf : ∀ child, original.part? role = some child → child.children = []) :
    (original.part? role).map text = (copy.part? role).map text := by
  rcases rel_cases (hcopied.part? role) with ⟨hnone, hnone'⟩ | ⟨child, found, hchild, hfound, hsame⟩
  · rw [hnone, hnone']
  · rw [hchild, hfound]
    exact congrArg some (hsame.text_of_leaf (hleaf child hchild))

theorem member_eq (hkind : original.kind = .memberAccess) :
    (original.part? .member).map text = (copy.part? .member).map text := by
  have hformed := hcopied.grammatical.formed
  rw [Formed, hkind] at hformed
  obtain ⟨-, member, -, hmember, -, hleaf⟩ := hformed
  refine hcopied.map_text_part? fun child hchild => ?_
  cases hmember.symm.trans hchild
  exact hleaf

/-- A definition has the same name in the copy. -/
theorem name_of_isDefinition (hkind : original.kind.isDefinition = true) :
    (original.part? .name).map text = (copy.part? .name).map text := by
  obtain ⟨name, hname, hidentifier, -⟩ := hcopied.grammatical.formed.exists_name hkind
  refine hcopied.map_text_part? fun child hchild => ?_
  cases hname.symm.trans hchild
  have hformed := (hcopied.grammatical.child (List.mem_of_find?_eq_some hname)).formed
  rw [Formed, hidentifier] at hformed
  exact hformed.2.2

theorem hint_eq : hintedType? original = hintedType? copy :=
  bind_eq_of_rel (hcopied.part? .type) fun hhint => TypeHint.className?_eq hhint.respaced

theorem name_of_naming
    (hkind : original.kind = .namedExpression ∨ original.kind = .typedDefaultParameter) :
    (original.part? .name).map text = (copy.part? .name).map text := by
  have hformed := hcopied.grammatical.formed
  refine hcopied.map_text_part? fun name hname => ?_
  rcases hkind with hkind | hkind <;> rw [Formed, hkind] at hformed
  · exact hformed name hname
  · have hinner := (hcopied.grammatical.child (List.mem_of_find?_eq_some hname)).formed
    rw [Formed, hformed name hname] at hinner
    exact hinner.2.2

end Copied

/-! Variables have the same types in a copy. -/

mutual

theorem Copied.alike {width rows : Nat} {original copy : SyntaxTree}
    (hcopied : Copied width rows original copy) : Alike original copy := by
  cases original with
  | node kind role start stop text children =>
      exact .node hcopied.kind_eq hcopied.role_eq hcopied.text_of_identifier hcopied.member_eq
        hcopied.name_of_naming (fun _ => hcopied.hint_eq)
        fun _ => forall₂_alike_of_copied hcopied.children_eq

theorem forall₂_alike_of_copied {width rows : Nat} {trees others : List SyntaxTree}
    (hall : List.Forall₂ (Copied width rows) trees others) : List.Forall₂ Alike trees others := by
  cases trees with
  | nil =>
      cases hall
      exact .nil
  | cons tree rest =>
      cases hall with
      | cons hfirst hrest => exact .cons hfirst.alike (forall₂_alike_of_copied hrest)

end

theorem map_treeGives_of_copied (imports : Imports) (name : String) {width rows : Nat}
    {trees others : List SyntaxTree} (hall : List.Forall₂ (Copied width rows) trees others) :
    trees.map (treeGives imports name) = others.map (treeGives imports name) := by
  induction hall with
  | nil => rfl
  | cons hfirst _ ih =>
      rw [List.map_cons, List.map_cons, ih, treeGives_of_alike imports name hfirst.kind_eq
        (forall₂_alike_of_copied hfirst.children_eq)]

/-! The same addresses lead to copies. -/

section

variable {width rows : Nat} {original copy : SyntaxTree}

theorem Copied.at? (hcopied : Copied width rows original copy) (site : List Nat) :
    Option.Rel (Copied width rows) (original.at? site) (copy.at? site) := by
  induction site generalizing original copy with
  | nil => exact .some hcopied
  | cons index rest ih =>
      rw [at?_cons, at?_cons]
      exact rel_bind (rel_getElem? hcopied.children_eq index) ih

theorem Copied.exists_at? (hcopied : Copied width rows original copy) {site : List Nat}
    {inner : SyntaxTree} (hinner : original.at? site = some inner) :
    ∃ found, copy.at? site = some found ∧ Copied width rows inner found := by
  rcases rel_cases (hcopied.at? site) with ⟨hnone, -⟩ | ⟨one, found, hone, hfound, hsame⟩
  · rw [hinner] at hnone
    cases hnone
  · cases hinner.symm.trans hone
    exact ⟨found, hfound, hsame⟩

theorem Copied.isWithin_eq (hcopied : Copied width rows original copy) (kind : Kind)
    (site : List Nat) : original.isWithin kind site = copy.isWithin kind site := by
  induction site generalizing original copy with
  | nil => rw [isWithin, isWithin, hcopied.kind_eq]
  | cons index rest ih =>
      rw [isWithin, isWithin, hcopied.kind_eq]
      rcases rel_cases (rel_getElem? hcopied.children_eq index) with
        ⟨hnone, hnone'⟩ | ⟨child, found, hchild, hfound, hsame⟩
      · rw [hnone, hnone']
      · rw [hchild, hfound]
        exact congrArg _ (ih hsame)

theorem Copied.definitionsAround (hcopied : Copied width rows original copy) (site : List Nat) :
    List.Forall₂ (Copied width rows) (original.definitionsAround site)
      (copy.definitionsAround site) := by
  induction site generalizing original copy with
  | nil => exact .nil
  | cons index rest ih =>
      rw [SyntaxTree.definitionsAround, SyntaxTree.definitionsAround, ← hcopied.kind_eq]
      rcases rel_cases (rel_getElem? hcopied.children_eq index) with
        ⟨hnone, hnone'⟩ | ⟨child, found, hchild, hfound, hsame⟩
      · rw [hnone, hnone']
        split
        · exact .cons hcopied .nil
        · exact .nil
      · rw [hchild, hfound]
        split
        · exact List.rel_append (ih hsame) (.cons hcopied .nil)
        · exact ih hsame

end

mutual

theorem Copied.addresses_eq {width rows : Nat} {original copy : SyntaxTree}
    (hcopied : Copied width rows original copy) : original.addresses = copy.addresses := by
  cases original with
  | node kind role start stop text children =>
      cases copy with
      | node kind' role' start' stop' text' children' =>
          rw [addresses, addresses]
          exact congrArg ([] :: ·) (addressesOfAll_of_copied hcopied.children_eq 0)

theorem addressesOfAll_of_copied {width rows : Nat} {trees others : List SyntaxTree}
    (hall : List.Forall₂ (Copied width rows) trees others) (base : Nat) :
    addressesOfAll base trees = addressesOfAll base others := by
  cases trees with
  | nil =>
      cases hall
      rfl
  | cons tree rest =>
      cases hall with
      | cons hfirst hrest =>
          rw [addressesOfAll, addressesOfAll, hfirst.addresses_eq,
            addressesOfAll_of_copied hrest (base + 1)]

end

end Syntax.SyntaxTree

end CodeGraph
