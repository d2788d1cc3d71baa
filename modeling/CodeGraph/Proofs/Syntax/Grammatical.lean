import CodeGraph.Syntax.Grammar.Statement
import CodeGraph.Text.Split
import Mathlib.Tactic.Tauto

namespace CodeGraph.Syntax

/-! What holds of every node of a tree that the grammar makes. -/

namespace Kind

/-- Lexemes that hold no construct. -/
@[simp] def isTrivia (kind : Kind) : Bool :=
  [token, comment, lineContinuation].contains kind

/-- Calls with what they pass, and statements and clauses that start with a keyword. -/
@[simp] def holdsWord (kind : Kind) : Bool :=
  [call, argumentList, generatorExpression, raiseStatement, exceptClause, exceptGroupClause,
    importStatement, importFromStatement].contains kind

/-- Kinds that the grammar promises nothing of. -/
@[simp] def isFree (kind : Kind) : Bool :=
  !([identifier, memberAccess, functionDefinition, classDefinition, decoratedDefinition,
    dottedName, aliasedImport, typedDefaultParameter, namedExpression].contains kind ||
    kind.holdsWord || kind.isTrivia)

end Kind

namespace SyntaxTree

/-- What a node has by its kind.  A name is a leaf, not empty and without dots, a dotted name does
not end in one, attributes, parameters and definitions have the parts that make them up, and a call
or a statement with a keyword holds some text. -/
def Formed (tree : SyntaxTree) : Prop :=
  match tree.kind with
  | .identifier => tree.text ≠ "" ∧ '.' ∉ tree.text.toList ∧ tree.children = []
  | .memberAccess => ∃ object member, tree.part? .object = some object ∧
      tree.part? .member = some member ∧ member.text ≠ "" ∧ member.children = []
  | .functionDefinition | .classDefinition =>
      (∃ name, tree.part? .name = some name ∧ name.kind = .identifier ∧ name.text ≠ "") ∧
        ∀ body, tree.part? .body = some body → body.kind = .block
  | .decoratedDefinition =>
      (∃ definition, tree.part? .definition = some definition ∧
        definition.kind.isDefinition = true) ∧
      ∀ child ∈ tree.children, child.kind = .decorator ∨ child.kind.isTrivia = true ∨
        child.kind.isDefinition = true
  | .dottedName => Text.lastSegment tree.text ≠ ""
  | .aliasedImport => (∃ name, tree.part? .name = some name ∧ name.kind = .dottedName) ∧
      ∃ binding, tree.part? .binding = some binding ∧ binding.text ≠ ""
  | .typedDefaultParameter => ∀ name, tree.part? .name = some name → name.kind = .identifier
  | .namedExpression => ∀ name, tree.part? .name = some name → name.children = []
  | .token | .comment | .lineContinuation => ∀ child ∈ tree.children, child.kind.isTrivia = true
  | .call | .argumentList | .generatorExpression | .raiseStatement | .exceptClause
  | .exceptGroupClause | .importStatement | .importFromStatement =>
      ∃ inner ∈ preorderAll tree.children, inner.text ≠ ""
  | _ => True

def Grammatical (tree : SyntaxTree) : Prop :=
  ∀ inner ∈ tree.preorder, inner.Formed

/-- A tree as the grammar makes it of a whole text. -/
structure IsModule (tree : SyntaxTree) : Prop where
  grammatical : tree.Grammatical
  kind_eq : tree.kind = .root

theorem formed_of_isFree {tree : SyntaxTree} (hfree : tree.kind.isFree = true) : tree.Formed := by
  unfold Formed
  split <;> simp_all

@[simp] theorem formed_node_of_isFree {kind : Kind} (hfree : kind.isFree = true)
    (role : Option Role) (start stop : Position) (text : String) (children : List SyntaxTree) :
    (node kind role start stop text children).Formed :=
  formed_of_isFree hfree

theorem formed_of_leaf {kind : Kind} {role : Option Role} {start stop : Position} {text : String}
    (htrivia : kind.isTrivia = true) : (node kind role start stop text []).Formed := by
  unfold Formed
  split <;> simp_all

theorem mem_preorderAll {inner : SyntaxTree} {trees : List SyntaxTree} :
    inner ∈ preorderAll trees ↔ ∃ tree ∈ trees, inner ∈ tree.preorder := by
  induction trees with
  | nil => simp
  | cons tree rest ih => simp [ih]

theorem mem_preorder_self (tree : SyntaxTree) : tree ∈ tree.preorder := by
  cases tree
  rw [preorder_node]
  exact List.mem_cons_self

theorem mem_preorder_of_children {tree inner : SyntaxTree}
    (hinner : inner ∈ preorderAll tree.children) : inner ∈ tree.preorder := by
  cases tree
  rw [preorder_node]
  exact List.mem_cons_of_mem _ hinner

theorem grammatical_node {kind : Kind} {role : Option Role} {start stop : Position}
    {text : String} {children : List SyntaxTree} :
    (node kind role start stop text children).Grammatical ↔
      (node kind role start stop text children).Formed ∧
        ∀ child ∈ children, child.Grammatical := by
  simp only [Grammatical, preorder_node, List.mem_cons, forall_eq_or_imp, mem_preorderAll]
  constructor
  · rintro ⟨hformed, hbelow⟩
    exact ⟨hformed, fun child hchild inner hinner => hbelow inner ⟨child, hchild, hinner⟩⟩
  · rintro ⟨hformed, hbelow⟩
    exact ⟨hformed, fun inner ⟨child, hchild, hinner⟩ => hbelow child hchild inner hinner⟩

theorem Grammatical.formed {tree : SyntaxTree} (htree : tree.Grammatical) : tree.Formed := by
  cases tree
  exact (grammatical_node.mp htree).1

theorem Formed.exists_text {tree : SyntaxTree} (hformed : tree.Formed)
    (hword : tree.kind.holdsWord = true) :
    ∃ inner ∈ preorderAll tree.children, inner.text ≠ "" := by
  unfold Formed at hformed
  split at hformed <;> simp_all

theorem Formed.exists_name {tree : SyntaxTree} (hformed : tree.Formed)
    (hkind : tree.kind.isDefinition = true) :
    ∃ name, tree.part? .name = some name ∧ name.kind = .identifier ∧ name.text ≠ "" := by
  unfold Kind.isDefinition at hkind
  unfold Formed at hformed
  split at hformed <;> simp_all

theorem Formed.kind_body {tree body : SyntaxTree} (hformed : tree.Formed)
    (hkind : tree.kind.isDefinition = true) (hbody : tree.part? .body = some body) :
    body.kind = .block := by
  unfold Kind.isDefinition at hkind
  unfold Formed at hformed
  split at hformed <;> simp_all

theorem Grammatical.child {tree child : SyntaxTree} (htree : tree.Grammatical)
    (hmem : child ∈ tree.children) : child.Grammatical := by
  cases tree
  exact (grammatical_node.mp htree).2 child hmem

@[simp] theorem grammatical_withRole {tree : SyntaxTree} {role : Role} :
    (tree.withRole role).Grammatical ↔ tree.Grammatical := by
  cases tree
  simp only [withRole, grammatical_node]
  exact Iff.rfl

theorem Grammatical.withKind {tree : SyntaxTree} (htree : tree.Grammatical) {kind : Kind}
    (hfree : kind.isFree = true) : (tree.withKind kind).Grammatical := by
  cases tree
  exact grammatical_node.mpr ⟨formed_of_isFree hfree, (grammatical_node.mp htree).2⟩

@[simp] theorem kind_withRole (tree : SyntaxTree) (role : Role) :
    (tree.withRole role).kind = tree.kind := by
  cases tree; rfl

@[simp] theorem role_withRole (tree : SyntaxTree) (role : Role) :
    (tree.withRole role).role = some role := by
  cases tree; rfl

@[simp] theorem text_withRole (tree : SyntaxTree) (role : Role) :
    (tree.withRole role).text = tree.text := by
  cases tree; rfl

mutual

theorem grammatical_asTarget? {tree target : SyntaxTree} (htree : tree.Grammatical)
    (htarget : tree.asTarget? = some target) : target.Grammatical := by
  cases tree with
  | node kind role start stop text children =>
      have hchildren := (grammatical_node.mp htree).2
      rw [asTarget?.eq_def] at htarget
      dsimp only at htarget
      split at htarget
      · cases htarget
        exact htree
      · cases htarget
        exact htree
      · cases htarget
        exact htree
      · cases htarget
        exact grammatical_node.mpr ⟨formed_of_isFree rfl, hchildren⟩
      · obtain ⟨targets, htargets, rfl⟩ := Option.map_eq_some_iff.mp htarget
        exact grammatical_node.mpr
          ⟨formed_of_isFree rfl, grammatical_asTargets? hchildren htargets⟩
      · obtain ⟨targets, htargets, rfl⟩ := Option.map_eq_some_iff.mp htarget
        exact grammatical_node.mpr
          ⟨formed_of_isFree rfl, grammatical_asTargets? hchildren htargets⟩
      · obtain ⟨targets, htargets, rfl⟩ := Option.map_eq_some_iff.mp htarget
        exact grammatical_node.mpr
          ⟨formed_of_isFree rfl, grammatical_asTargets? hchildren htargets⟩
      · cases htarget

theorem grammatical_asTargets? {trees targets : List SyntaxTree}
    (htrees : ∀ tree ∈ trees, tree.Grammatical) (htargets : asTargets? trees = some targets) :
    ∀ target ∈ targets, target.Grammatical := by
  cases trees with
  | nil =>
      rw [asTargets?] at htargets
      cases htargets
      exact fun _ hmem => nomatch hmem
  | cons tree rest =>
      obtain ⟨htree, hrest⟩ := List.forall_mem_cons.mp htrees
      have hkept : ∀ {others}, (asTargets? rest).map (tree :: ·) = some others →
          ∀ target ∈ others, target.Grammatical := by
        intro others hothers
        obtain ⟨left, hleft, rfl⟩ := Option.map_eq_some_iff.mp hothers
        exact List.forall_mem_cons.mpr ⟨htree, grammatical_asTargets? hrest hleft⟩
      rw [asTargets?.eq_def] at htargets
      dsimp only at htargets
      split at htargets
      · exact hkept htargets
      · exact hkept htargets
      · exact hkept htargets
      · obtain ⟨target, htarget, hothers⟩ := Option.bind_eq_some_iff.mp htargets
        obtain ⟨left, hleft, hsame⟩ := Option.bind_eq_some_iff.mp hothers
        cases hsame
        exact List.forall_mem_cons.mpr
          ⟨grammatical_asTarget? htree htarget, grammatical_asTargets? hrest hleft⟩

end

/-- A comment or line continuation, as it stands between the pieces of a node. -/
structure IsExtra (tree : SyntaxTree) : Prop where
  trivia : tree.kind.isTrivia = true
  role : tree.role = none
  children : tree.children = []

theorem IsExtra.grammatical {tree : SyntaxTree} (hextra : tree.IsExtra) : tree.Grammatical := by
  cases tree with
  | node kind role start stop text children =>
      obtain rfl : children = [] := hextra.children
      exact grammatical_node.mpr ⟨formed_of_leaf hextra.trivia, nofun⟩

end SyntaxTree

/-! Pieces -/

namespace Piece

@[simp] theorem tree_withRole (piece : Piece) (role : Role) :
    (piece.withRole role).tree = piece.tree.withRole role := rfl

def Good (piece : Piece) : Prop :=
  (∀ tree ∈ piece.extras, tree.IsExtra) ∧ piece.tree.Grammatical

@[simp] theorem good_withRole {piece : Piece} {role : Role} :
    (piece.withRole role).Good ↔ piece.Good := by
  simp [Good, withRole]

theorem Good.withKind {piece : Piece} (hgood : piece.Good) {kind : Kind}
    (hfree : kind.isFree = true) : (piece.withKind kind).Good :=
  ⟨hgood.1, hgood.2.withKind hfree⟩

theorem Good.withTarget {piece : Piece} (hgood : piece.Good) {target : SyntaxTree}
    (htarget : piece.tree.asTarget? = some target) : ({ piece with tree := target } : Piece).Good :=
  ⟨hgood.1, SyntaxTree.grammatical_asTarget? hgood.2 htarget⟩

theorem Good.withExtras {piece : Piece} (hgood : piece.Good) {extras : List SyntaxTree}
    (hextras : ∀ tree ∈ extras, tree.IsExtra) :
    ({ piece with extras := extras ++ piece.extras } : Piece).Good :=
  ⟨List.forall_mem_append.mpr ⟨hextras, hgood.1⟩, hgood.2⟩

theorem Good.flatten {piece : Piece} (hgood : piece.Good) :
    ∀ tree ∈ piece.flatten, tree.Grammatical := by
  intro tree hmem
  rcases List.mem_append.mp hmem with hextra | htree
  · exact (hgood.1 tree hextra).grammatical
  · rw [List.mem_singleton.mp htree]
    exact hgood.2

end Piece

def GoodAll (pieces : List Piece) : Prop :=
  ∀ piece ∈ pieces, piece.Good

@[simp] theorem goodAll_nil : GoodAll [] := nofun

@[simp] theorem goodAll_cons {piece : Piece} {rest : List Piece} :
    GoodAll (piece :: rest) ↔ piece.Good ∧ GoodAll rest :=
  List.forall_mem_cons

@[simp] theorem goodAll_append {first second : List Piece} :
    GoodAll (first ++ second) ↔ GoodAll first ∧ GoodAll second :=
  List.forall_mem_append

@[simp] theorem goodAll_reverse {pieces : List Piece} :
    GoodAll pieces.reverse ↔ GoodAll pieces := by
  simp [GoodAll]

@[simp] theorem goodAll_map_withRole {pieces : List Piece} {role : Role} :
    GoodAll (pieces.map (Piece.withRole role)) ↔ GoodAll pieces := by
  simp [GoodAll]

theorem GoodAll.map_withKind {pieces : List Piece} (hgood : GoodAll pieces) {kind : Kind}
    (hfree : kind.isFree = true) : GoodAll (pieces.map (Piece.withKind kind)) := by
  intro piece hmem
  obtain ⟨inner, hinner, rfl⟩ := List.mem_map.mp hmem
  exact (hgood inner hinner).withKind hfree

theorem goodAll_flatten {lists : List (List Piece)} (hlists : ∀ pieces ∈ lists, GoodAll pieces) :
    GoodAll lists.flatten := by
  intro piece hmem
  obtain ⟨pieces, hpieces, hpiece⟩ := List.mem_flatten.mp hmem
  exact hlists pieces hpieces piece hpiece

/-- Good pieces with no part to play. -/
def BareAll (pieces : List Piece) : Prop :=
  GoodAll pieces ∧ ∀ piece ∈ pieces, piece.tree.role = none

@[simp] theorem BareAll.goodAll {pieces : List Piece} (hbare : BareAll pieces) : GoodAll pieces :=
  hbare.1

@[simp] theorem bareAll_nil : BareAll [] := ⟨nofun, nofun⟩

@[simp] theorem bareAll_cons {piece : Piece} {rest : List Piece} :
    BareAll (piece :: rest) ↔ (piece.Good ∧ piece.tree.role = none) ∧ BareAll rest := by
  simp only [BareAll, goodAll_cons, List.forall_mem_cons]
  tauto

@[simp] theorem bareAll_append {first second : List Piece} :
    BareAll (first ++ second) ↔ BareAll first ∧ BareAll second := by
  simp only [BareAll, goodAll_append, List.forall_mem_append]
  tauto

/-- Good pieces, where only a block plays the part of the body and only a name that of the name. -/
def BlockAll (pieces : List Piece) : Prop :=
  GoodAll pieces ∧ ∀ piece ∈ pieces,
    (piece.tree.role = some .body → piece.tree.kind = .block) ∧
      (piece.tree.role = some .name → piece.tree.kind = .identifier)

@[simp] theorem BlockAll.goodAll {pieces : List Piece} (hblock : BlockAll pieces) :
    GoodAll pieces :=
  hblock.1

@[simp] theorem BareAll.blockAll {pieces : List Piece} (hbare : BareAll pieces) :
    BlockAll pieces := by
  refine ⟨hbare.1, fun piece hmem => ?_⟩
  rw [hbare.2 piece hmem]
  exact ⟨nofun, nofun⟩

@[simp] theorem blockAll_nil : BlockAll [] := ⟨nofun, nofun⟩

@[simp] theorem blockAll_cons {piece : Piece} {rest : List Piece} :
    BlockAll (piece :: rest) ↔
      (piece.Good ∧ (piece.tree.role = some .body → piece.tree.kind = .block) ∧
        (piece.tree.role = some .name → piece.tree.kind = .identifier)) ∧ BlockAll rest := by
  simp only [BlockAll, goodAll_cons, List.forall_mem_cons]
  tauto

@[simp] theorem blockAll_append {first second : List Piece} :
    BlockAll (first ++ second) ↔ BlockAll first ∧ BlockAll second := by
  simp only [BlockAll, goodAll_append, List.forall_mem_append]
  tauto

/-- The children of a node over the pieces. -/
def childrenOf : List Piece → List SyntaxTree
  | [] => []
  | first :: rest => first.tree :: rest.flatMap Piece.flatten

theorem GoodAll.childrenOf {pieces : List Piece} (hgood : GoodAll pieces) :
    ∀ child ∈ childrenOf pieces, child.Grammatical := by
  cases pieces with
  | nil => nofun
  | cons first rest =>
      obtain ⟨hfirst, hrest⟩ := goodAll_cons.mp hgood
      refine List.forall_mem_cons.mpr ⟨hfirst.2, fun child hmem => ?_⟩
      obtain ⟨piece, hpiece, hchild⟩ := List.mem_flatMap.mp hmem
      exact (hrest piece hpiece).flatten child hchild

/-- The last child of a node is the tree of its last piece. -/
theorem getLast?_childrenOf (pieces : List Piece) :
    (childrenOf pieces).getLast? = pieces.getLast?.map Piece.tree := by
  cases pieces with
  | nil => rfl
  | cons first rest =>
      rcases List.eq_nil_or_concat rest with rfl | ⟨front, last, rfl⟩
      · rfl
      · simp [childrenOf, Piece.flatten, List.getLast?_cons]

/-- A child is the tree of a piece, or stands between two of them. -/
theorem GoodAll.exists_or_isExtra {pieces : List Piece} (hgood : GoodAll pieces)
    {child : SyntaxTree} (hmem : child ∈ Syntax.childrenOf pieces) :
    (∃ piece ∈ pieces, child = piece.tree) ∨ child.IsExtra := by
  cases pieces with
  | nil => cases hmem
  | cons first rest =>
      rcases List.mem_cons.mp hmem with rfl | hlater
      · exact .inl ⟨first, List.mem_cons_self, rfl⟩
      · obtain ⟨piece, hpiece, hchild⟩ := List.mem_flatMap.mp hlater
        rcases List.mem_append.mp hchild with hextra | htree
        · exact .inr (((goodAll_cons.mp hgood).2 piece hpiece).1 child hextra)
        · exact .inl ⟨piece, List.mem_cons_of_mem first hpiece, List.mem_singleton.mp htree⟩

/-- A child with a part to play is the tree of a piece. -/
theorem GoodAll.exists_of_role {pieces : List Piece} (hgood : GoodAll pieces)
    {child : SyntaxTree} (hmem : child ∈ Syntax.childrenOf pieces) {role : Role}
    (hrole : child.role = some role) : ∃ piece ∈ pieces, child = piece.tree := by
  rcases hgood.exists_or_isExtra hmem with hpiece | hextra
  · exact hpiece
  · rw [hextra.role] at hrole
    cases hrole

theorem tree_mem_childrenOf {pieces : List Piece} {piece : Piece} (hmem : piece ∈ pieces) :
    piece.tree ∈ childrenOf pieces := by
  cases pieces with
  | nil => cases hmem
  | cons first rest =>
      rcases List.mem_cons.mp hmem with rfl | hlater
      · exact List.mem_cons_self
      · refine List.mem_cons_of_mem _ (List.mem_flatMap.mpr ⟨piece, hlater, ?_⟩)
        exact List.mem_append_right _ (List.mem_singleton_self _)

/-- The part of a node over pieces is the tree of a piece in that part. -/
theorem GoodAll.part? {pieces : List Piece} (hgood : GoodAll pieces) (role : Role)
    (hplayed : ∃ piece ∈ pieces, piece.tree.role = some role) :
    ∃ found ∈ pieces, found.tree.role = some role ∧ ∀ kind start stop text,
      (SyntaxTree.node kind none start stop text (Syntax.childrenOf pieces)).part? role =
        some found.tree := by
  obtain ⟨piece, hmem, hrole⟩ := hplayed
  have hsome : ((Syntax.childrenOf pieces).find? fun child =>
      child.role == some role).isSome = true := by
    rw [List.find?_isSome]
    exact ⟨piece.tree, tree_mem_childrenOf hmem, by simp [hrole]⟩
  obtain ⟨child, hchild⟩ := Option.isSome_iff_exists.mp hsome
  have hplays : child.role = some role := by simpa using List.find?_some hchild
  obtain ⟨found, hfound, rfl⟩ := hgood.exists_of_role (List.mem_of_find?_eq_some hchild) hplays
  exact ⟨found, hfound, hplays, fun _ _ _ _ => hchild⟩

end CodeGraph.Syntax
