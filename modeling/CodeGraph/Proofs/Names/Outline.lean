import CodeGraph.Proofs.Names.Scopes
import Mathlib.Data.List.Forall2

namespace CodeGraph

open Syntax Names

/-! What of a syntax tree the types of its variables depend on.  Positions do not matter, nor does
anything inside of nested definitions. -/

namespace Syntax.SyntaxTree

/-- Names, members and type hints are read by their texts. -/
def isReadAs : Role → Bool
  | .name | .member | .type => true
  | _ => false

def isRead (kind : Kind) (role : Option Role) : Bool :=
  kind == .identifier || role.any isReadAs

/-- The node is a definition or the like inside of a scope, and not itself the scope's body or
parameters. -/
def isCut (kind : Kind) (role : Option Role) : Bool :=
  isApart kind && role != some .body && role != some .parameters

mutual

def decEq : (one other : SyntaxTree) → Decidable (one = other)
  | node kind role start stop text children, node kind' role' start' stop' text' children' =>
      if hhead : (kind, role, start, stop, text) = (kind', role', start', stop', text') then
        match decEqAll children children' with
        | isTrue hsame => isTrue (by simp_all)
        | isFalse hne => isFalse (by simp_all)
      else isFalse (by simp_all)

def decEqAll : (trees others : List SyntaxTree) → Decidable (trees = others)
  | [], [] => isTrue rfl
  | [], other :: others => isFalse (List.cons_ne_nil other others).symm
  | tree :: rest, [] => isFalse (List.cons_ne_nil tree rest)
  | tree :: rest, other :: others =>
      match decEq tree other, decEqAll rest others with
      | isTrue hfirst, isTrue hrest => isTrue (congrArg₂ List.cons hfirst hrest)
      | isFalse hne, _ => isFalse fun hsame => hne (List.cons.inj hsame).1
      | _, isFalse hne => isFalse fun hsame => hne (List.cons.inj hsame).2

end

instance : DecidableEq SyntaxTree := decEq

mutual

/-- The tree without positions, with the texts that are read, and with definitions cut down to
their kind. -/
def outline : SyntaxTree → SyntaxTree
  | node kind role _ _ text children =>
      node kind role .origin .origin (if isRead kind role then text else "")
        (if isCut kind role then [] else outlineAll children)

def outlineAll : List SyntaxTree → List SyntaxTree
  | [] => []
  | tree :: rest => tree.outline :: outlineAll rest

end

theorem outlineAll_eq (trees : List SyntaxTree) : outlineAll trees = trees.map outline := by
  induction trees with
  | nil => rw [outlineAll, List.map_nil]
  | cons tree rest ih => rw [outlineAll, ih, List.map_cons]

@[simp] theorem kind_outline (tree : SyntaxTree) : tree.outline.kind = tree.kind := by
  cases tree
  rw [outline]
  rfl

@[simp] theorem role_outline (tree : SyntaxTree) : tree.outline.role = tree.role := by
  cases tree
  rw [outline]
  rfl

theorem text_outline {tree : SyntaxTree} (hread : isRead tree.kind tree.role = true) :
    tree.outline.text = tree.text := by
  cases tree
  rw [outline]
  exact if_pos hread

theorem children_outline {tree : SyntaxTree} (hcut : isCut tree.kind tree.role = false) :
    tree.outline.children = tree.children.map outline := by
  cases tree with
  | node kind role start stop text children =>
      rw [outline, children_node, ← outlineAll_eq]
      exact if_neg (by simpa using hcut)

theorem text_outline_of_identifier {tree : SyntaxTree} (hkind : tree.kind = .identifier) :
    tree.outline.text = tree.text := by
  refine text_outline ?_
  rw [isRead, hkind]
  rfl

theorem isCut_eq_false {kind : Kind} (hopen : isApart kind = false) (role : Option Role) :
    isCut kind role = false := by
  rw [isCut, hopen]
  rfl

theorem find?_role_outline (trees : List SyntaxTree) (role : Role) :
    (trees.map outline).find? (fun child => child.role == some role) =
      (trees.find? fun child => child.role == some role).map outline := by
  rw [List.find?_map]
  congr 2
  funext child
  exact congrArg (· == some role) (role_outline child)

theorem part?_outline {tree : SyntaxTree} (hcut : isCut tree.kind tree.role = false) (role : Role) :
    tree.outline.part? role = (tree.part? role).map outline := by
  rw [part?, children_outline hcut, find?_role_outline, part?]

theorem role_of_part? {tree child : SyntaxTree} {role : Role}
    (hchild : tree.part? role = some child) : child.role = some role := by
  simpa using List.find?_some hchild

theorem text_outline_of_part? {tree child : SyntaxTree} {role : Role}
    (hchild : tree.part? role = some child) (hrole : isReadAs role = true) :
    child.outline.text = child.text := by
  refine text_outline ?_
  rw [isRead, role_of_part? hchild, Option.any_some, hrole, Bool.or_true]

theorem map_text_part?_outline {tree : SyntaxTree} (hcut : isCut tree.kind tree.role = false)
    {role : Role} (hrole : isReadAs role = true) :
    (tree.outline.part? role).map text = (tree.part? role).map text := by
  rw [part?_outline hcut]
  cases hchild : tree.part? role with
  | none => rfl
  | some child => exact congrArg some (text_outline_of_part? hchild hrole)

section

variable {one other : SyntaxTree} (hsame : one.outline = other.outline)

include hsame

theorem kind_eq_of_outline : one.kind = other.kind := by
  rw [← kind_outline one, hsame, kind_outline]

theorem role_eq_of_outline : one.role = other.role := by
  rw [← role_outline one, hsame, role_outline]

theorem exists_part?_of_outline (hopen : isApart one.kind = false) {role : Role}
    {child : SyntaxTree} (hchild : one.part? role = some child) :
    ∃ found, other.part? role = some found ∧ child.outline = found.outline := by
  have hother : isApart other.kind = false := by rwa [← kind_eq_of_outline hsame]
  have hfound := part?_outline (isCut_eq_false hother _) role
  rw [← hsame, part?_outline (isCut_eq_false hopen _), hchild, Option.map_some] at hfound
  obtain ⟨found, hsome, heq⟩ := Option.map_eq_some_iff.mp hfound.symm
  exact ⟨found, hsome, heq.symm⟩

end

/-! Trees that give their variables the same types -/

/-- The trees agree in the names they are read by, and in the classes that their hints name, down to
the nested definitions. -/
inductive Alike : SyntaxTree → SyntaxTree → Prop
  | node {one other : SyntaxTree} (hkind : one.kind = other.kind) (hrole : one.role = other.role)
      (htext : one.kind = .identifier → one.text = other.text)
      (hmember : one.kind = .memberAccess →
        (one.part? .member).map text = (other.part? .member).map text)
      (hname : one.kind = .namedExpression ∨ one.kind = .typedDefaultParameter →
        (one.part? .name).map text = (other.part? .name).map text)
      (hhint : isCut one.kind one.role = false → hintedType? one = hintedType? other)
      (hbelow : isCut one.kind one.role = false → List.Forall₂ Alike one.children other.children) :
      Alike one other

section

variable {Related : SyntaxTree → SyntaxTree → Prop} {trees others : List SyntaxTree}
variable (hall : List.Forall₂ Related trees others)

include hall

theorem rel_find? {accepts : SyntaxTree → Bool}
    (haccepts : ∀ {one other}, Related one other → accepts one = accepts other) :
    Option.Rel (fun one other => accepts one = true ∧ Related one other) (trees.find? accepts)
      (others.find? accepts) := by
  induction hall with
  | nil => exact .none
  | cons hfirst _ ih =>
      rw [List.find?_cons, List.find?_cons, ← haccepts hfirst]
      split
      · next haccepted => exact .some ⟨haccepted, hfirst⟩
      · exact ih

theorem filterMap_eq_of_forall₂ {α : Type} {read : SyntaxTree → Option α}
    (hread : ∀ {one other}, Related one other → read one = read other) :
    trees.filterMap read = others.filterMap read := by
  induction hall with
  | nil => rfl
  | cons hfirst _ ih => rw [List.filterMap_cons, List.filterMap_cons, hread hfirst, ih]

end

theorem bind_eq_of_rel {α : Type} {Related : SyntaxTree → SyntaxTree → Prop}
    {first second : Option SyntaxTree} (hrel : Option.Rel Related first second)
    {read read' : SyntaxTree → Option α}
    (hread : ∀ {one other}, Related one other → read one = read' other) :
    first.bind read = second.bind read' := by
  cases hrel with
  | none => rfl
  | some hsame => exact hread hsame

theorem rel_of_map_text {first second : Option SyntaxTree}
    (hsame : first.map text = second.map text) :
    Option.Rel (fun one other => one.text = other.text) first second := by
  cases first <;> cases second <;> simp at hsame
  · exact .none
  · exact .some hsame

namespace Alike

variable {one other : SyntaxTree} (hsame : Alike one other)

include hsame

theorem kind_eq : one.kind = other.kind := by
  cases hsame with
  | node hkind => exact hkind

theorem role_eq : one.role = other.role := by
  cases hsame with
  | node _ hrole => exact hrole

theorem text_eq (hkind : one.kind = .identifier) : one.text = other.text := by
  cases hsame with
  | node _ _ htext => exact htext hkind

theorem member_eq (hkind : one.kind = .memberAccess) :
    (one.part? .member).map text = (other.part? .member).map text := by
  cases hsame with
  | node _ _ _ hmember => exact hmember hkind

theorem name_eq (hkind : one.kind = .namedExpression ∨ one.kind = .typedDefaultParameter) :
    (one.part? .name).map text = (other.part? .name).map text := by
  cases hsame with
  | node _ _ _ _ hname => exact hname hkind

theorem children (hcut : isCut one.kind one.role = false) :
    List.Forall₂ Alike one.children other.children := by
  cases hsame with
  | node _ _ _ _ _ _ hbelow => exact hbelow hcut

theorem namedChildren (hcut : isCut one.kind one.role = false) :
    List.Forall₂ Alike one.namedChildren other.namedChildren :=
  List.rel_filter (fun _ _ hchild => by simp only [hchild.kind_eq]) (hsame.children hcut)

section

variable (hopen : isApart one.kind = false)

include hopen

theorem hint_eq : hintedType? one = hintedType? other := by
  cases hsame with
  | node _ _ _ _ _ hhint => exact hhint (isCut_eq_false hopen _)

theorem bind_part? {α : Type} (role : Role) {read read' : SyntaxTree → Option α}
    (hread : ∀ {child found}, Alike child found → read child = read' found) :
    (one.part? role).bind read = (other.part? role).bind read' :=
  bind_eq_of_rel (rel_find? (hsame.children (isCut_eq_false hopen _))
    fun hchild => by rw [hchild.role_eq]) fun hfound => hread hfound.2

theorem firstNamed? : Option.Rel Alike one.firstNamed? other.firstNamed? := by
  have hnamed := hsame.namedChildren (isCut_eq_false hopen _)
  rw [SyntaxTree.firstNamed?, SyntaxTree.firstNamed?]
  generalize one.namedChildren = trees at hnamed ⊢
  generalize other.namedChildren = others at hnamed ⊢
  cases hnamed with
  | nil => exact .none
  | cons hfirst _ => exact .some hfirst

end

end Alike

end Syntax.SyntaxTree

namespace Names

open SyntaxTree

/-! Typed writes -/

section

variable {one other : SyntaxTree} (hsame : Alike one other)

include hsame

theorem targetKey?_congr : targetKey? one = targetKey? other := by
  rw [targetKey?, targetKey?, ← hsame.kind_eq]
  split
  · next hkind => rw [hsame.text_eq hkind]
  · next hkind =>
      refine hsame.bind_part? (by rw [hkind]; rfl) .object fun {object _} hobject => ?_
      refine bind_eq_of_rel (rel_of_map_text (hsame.member_eq hkind)) fun hmember => ?_
      rw [← hobject.kind_eq, hmember]
      by_cases hidentifier : object.kind = .identifier
      · rw [hobject.text_eq hidentifier]
      · simp only [hidentifier, false_and, if_false]
  · rfl

theorem constructedType?_congr (imports : Imports) :
    constructedType? imports one = constructedType? imports other := by
  rw [constructedType?, constructedType?, ← hsame.kind_eq]
  split
  · next hkind =>
      refine hsame.bind_part? (by rw [hkind]; rfl) .function fun {function _} hfunction => ?_
      rw [← hfunction.kind_eq]
      split
      · next hidentifier => rw [hfunction.text_eq hidentifier]
      · next haccess =>
          rw [Option.map_eq_bind, Option.map_eq_bind]
          refine bind_eq_of_rel (rel_of_map_text (hfunction.member_eq haccess)) fun hmember => ?_
          rw [Function.comp_apply, Function.comp_apply, hmember]
      · rfl
  · rfl

theorem namedExpressionWrite?_congr (imports : Imports) (hkind : one.kind = .namedExpression) :
    namedExpressionWrite? imports one = namedExpressionWrite? imports other := by
  refine bind_eq_of_rel (rel_of_map_text (hsame.name_eq (.inl hkind))) fun hname => ?_
  refine hsame.bind_part? (by rw [hkind]; rfl) .value fun hvalue => ?_
  rw [constructedType?_congr hvalue, hname]

theorem withItemWrite?_congr (imports : Imports) (hopen : isApart one.kind = false) :
    withItemWrite? imports one = withItemWrite? imports other := by
  refine hsame.bind_part? hopen .value fun {value _} hvalue => ?_
  rw [← hvalue.kind_eq]
  split
  · next hkind =>
      have hinner : isApart value.kind = false := by rw [hkind]; rfl
      refine bind_eq_of_rel (hvalue.firstNamed? hinner) fun hexpression => ?_
      refine hvalue.bind_part? hinner .binding fun {binding _} hbinding => ?_
      rw [← hbinding.kind_eq, constructedType?_congr hexpression]
      split
      · next htarget =>
          refine bind_eq_of_rel (hbinding.firstNamed? (by rw [htarget]; rfl)) fun hfirst => ?_
          dsimp only
          rw [targetKey?_congr hfirst]
      · simp only [Option.bind_eq_bind, Option.bind_some, targetKey?_congr hbinding]
  · rfl

end

mutual

theorem chainEnd?_congr {one other : SyntaxTree} (hsame : Alike one other) :
    Option.Rel Alike (chainEnd? one) (chainEnd? other) := by
  cases one with
  | node kind role start stop text children =>
      cases other with
      | node kind' role' start' stop' text' children' =>
          have hkind : kind = kind' := hsame.kind_eq
          rw [chainEnd?, chainEnd?, ← hkind]
          split
          · next hassignment =>
              have hopen : isApart kind = false := by rw [hassignment]; rfl
              exact chainEndOf?_congr (hsame.children (isCut_eq_false hopen role))
          · rw [hkind] at hsame ⊢
            exact .some hsame

theorem chainEndOf?_congr {trees others : List SyntaxTree}
    (hall : List.Forall₂ Alike trees others) :
    Option.Rel Alike (chainEndOf? trees) (chainEndOf? others) := by
  cases trees with
  | nil =>
      cases hall
      rw [chainEndOf?]
      exact .none
  | cons tree rest =>
      cases hall with
      | cons hfirst hrest =>
          rw [chainEndOf?, chainEndOf?, hfirst.role_eq]
          split
          · exact chainEnd?_congr hfirst
          · exact chainEndOf?_congr hrest

end

theorem assignmentWrite?_congr (imports : Imports) {one other : SyntaxTree}
    (hsame : Alike one other) (hopen : isApart one.kind = false) :
    assignmentWrite? imports one = assignmentWrite? imports other := by
  have hvalue := bind_eq_of_rel (chainEndOf?_congr (hsame.children (isCut_eq_false hopen _)))
    fun hend => constructedType?_congr hend imports
  refine hsame.bind_part? hopen .left fun hleft => ?_
  rw [targetKey?_congr hleft, hsame.hint_eq hopen, hvalue]

theorem write?_congr (imports : Imports) {one other : SyntaxTree} (hsame : Alike one other) :
    write? imports one = write? imports other := by
  rw [write?, write?, ← hsame.kind_eq]
  split
  · next hkind => exact assignmentWrite?_congr imports hsame (by rw [hkind]; rfl)
  · next hkind => exact namedExpressionWrite?_congr hsame imports hkind
  · next hkind => exact withItemWrite?_congr hsame imports (by rw [hkind]; rfl)
  · rfl

mutual

theorem forall₂_ownNodes {one other : SyntaxTree} (hsame : Alike one other) :
    List.Forall₂ Alike (ownNodes one) (ownNodes other) := by
  cases one with
  | node kind role start stop text children =>
      cases other with
      | node kind' role' start' stop' text' children' =>
          have hkind : kind = kind' := hsame.kind_eq
          rw [ownNodes, ownNodes, ← hkind]
          split
          · exact .nil
          · next hopen =>
              have hcut := isCut_eq_false (by simpa using hopen) role
              have hbelow := forall₂_ownNodesOfAll (hsame.children hcut)
              rw [hkind] at hsame ⊢
              exact .cons hsame hbelow

theorem forall₂_ownNodesOfAll {trees others : List SyntaxTree}
    (hall : List.Forall₂ Alike trees others) :
    List.Forall₂ Alike (ownNodesOfAll trees) (ownNodesOfAll others) := by
  cases trees with
  | nil =>
      cases hall
      rw [ownNodesOfAll]
      exact .nil
  | cons tree rest =>
      cases hall with
      | cons hfirst hrest =>
          rw [ownNodesOfAll, ownNodesOfAll]
          exact List.rel_append (forall₂_ownNodes hfirst) (forall₂_ownNodesOfAll hrest)

end

theorem lastWrite?_congr (imports : Imports) (name : String) {one other : SyntaxTree}
    (hall : List.Forall₂ Alike one.children other.children) :
    lastWrite? imports name one = lastWrite? imports name other := by
  rw [lastWrite?, lastWrite?,
    filterMap_eq_of_forall₂ (forall₂_ownNodesOfAll hall) fun hnode => write?_congr imports hnode]

/-! Parameters -/

theorem parameterName?_congr {one other : SyntaxTree} (hsame : Alike one other) :
    parameterName? one = parameterName? other := by
  have hstarred : isApart one.kind = false →
      (one.namedChildren.find? fun child => child.kind == .identifier).map text =
        (other.namedChildren.find? fun child => child.kind == .identifier).map text := by
    intro hopen
    rw [Option.map_eq_bind, Option.map_eq_bind]
    refine bind_eq_of_rel (rel_find? (hsame.namedChildren (isCut_eq_false hopen _))
      fun hchild => by rw [hchild.kind_eq]) fun hfound => ?_
    exact congrArg some (hfound.2.text_eq (by simpa using hfound.1))
  rw [parameterName?, parameterName?, ← hsame.kind_eq]
  split
  · next hkind => rw [hsame.text_eq hkind]
  · next hkind => exact hstarred (by rw [hkind]; rfl)
  · next hkind => exact hstarred (by rw [hkind]; rfl)
  · rfl

theorem parameterType?_congr {one other : SyntaxTree} (hsame : Alike one other) :
    parameterType? one = parameterType? other := by
  rw [parameterType?, parameterType?, ← hsame.kind_eq]
  split
  · next hkind =>
      have hopen : isApart one.kind = false := by rw [hkind]; rfl
      have hsplit : ∀ tree : SyntaxTree, (do
          let hint ← tree.part? .type
          let name ← tree.firstNamed?.bind parameterName?
          let type ← TypeHint.className? hint.text
          pure (name, type)) =
          (tree.firstNamed?.bind parameterName?).bind fun name =>
            (hintedType? tree).bind fun type => some (name, type) := by
        intro tree
        cases hhint : tree.part? .type <;>
          cases tree.firstNamed?.bind parameterName? <;> simp [hintedType?, hhint]
      rw [hsplit, hsplit, hsame.hint_eq hopen,
        bind_eq_of_rel (hsame.firstNamed? hopen) parameterName?_congr]
  · next hkind =>
      have hopen : isApart one.kind = false := by rw [hkind]; rfl
      refine bind_eq_of_rel (rel_of_map_text (hsame.name_eq (.inr hkind))) fun hname => ?_
      have hsplit : ∀ (tree : SyntaxTree) (name : String), (do
          let hint ← tree.part? .type
          let type ← TypeHint.className? hint.text
          pure (name, type)) = (hintedType? tree).bind fun type => some (name, type) := by
        intro tree name
        rw [hintedType?, Option.bind_assoc]
        rfl
      rw [hname, hsplit, hsplit, hsame.hint_eq hopen]
  · rfl

/-! Scopes -/

theorem scopeType?_of_alike (imports : Imports) (name : String) {one other : SyntaxTree}
    (hkind : one.kind = other.kind) (hall : List.Forall₂ Alike one.children other.children) :
    scopeType? imports name one = scopeType? imports name other := by
  have hrole : ∀ {role child found}, Alike child found →
      (child.role == some role) = (found.role == some role) :=
    fun hchild => by rw [hchild.role_eq]
  -- the body and the parameters are open, of whatever kind they are
  have hbody : (one.part? .body).bind (lastWrite? imports name) =
      (other.part? .body).bind (lastWrite? imports name) := by
    refine bind_eq_of_rel (rel_find? hall hrole) fun hfound => ?_
    refine lastWrite?_congr imports name (hfound.2.children ?_)
    simp [isCut, eq_of_beq hfound.1]
  have hparameter : lastParameter? name one = lastParameter? name other := by
    refine bind_eq_of_rel (rel_find? hall hrole) fun {child _} hfound => ?_
    have hcut : isCut child.kind child.role = false := by simp [isCut, eq_of_beq hfound.1]
    rw [filterMap_eq_of_forall₂ (hfound.2.namedChildren hcut) parameterType?_congr]
  rw [scopeType?, scopeType?, ← hkind]
  split
  · rw [hbody, hparameter]
  · exact hbody
  · exact lastWrite?_congr imports name hall

theorem treeGives_of_alike (imports : Imports) (name : String) {one other : SyntaxTree}
    (hkind : one.kind = other.kind) (hall : List.Forall₂ Alike one.children other.children) :
    treeGives imports name one = treeGives imports name other := by
  rw [treeGives, treeGives, treeScopeKind, treeScopeKind, hkind,
    scopeType?_of_alike imports name hkind hall]

/-! Trees with the same outline are alike. -/

mutual

theorem alike_of_outline {one other : SyntaxTree} (hsame : one.outline = other.outline) :
    Alike one other := by
  have hkind := kind_eq_of_outline hsame
  have hrole := role_eq_of_outline hsame
  have hcuts : isCut one.kind one.role = isCut other.kind other.role := by rw [hkind, hrole]
  have hparts : isCut one.kind one.role = false → ∀ role, isReadAs role = true →
      (one.part? role).map text = (other.part? role).map text := by
    intro hcut role hread
    rw [← map_text_part?_outline hcut hread, hsame, map_text_part?_outline (hcuts ▸ hcut) hread]
  cases one with
  | node kind role start stop text children =>
      refine .node hkind hrole (fun hread => ?_) (fun hread => ?_) (fun hread => ?_)
        (fun hcut => ?_) fun hcut => ?_
      · rw [← text_outline_of_identifier hread, hsame,
          text_outline_of_identifier (hkind.symm.trans hread)]
      · exact hparts (isCut_eq_false (by rw [hread]; rfl) role) .member rfl
      · refine hparts (isCut_eq_false ?_ role) .name rfl
        rcases hread with hread | hread <;> (rw [hread]; rfl)
      · have hhint : ∀ tree : SyntaxTree, hintedType? tree =
            ((tree.part? .type).map SyntaxTree.text).bind TypeHint.className? := by
          intro tree
          rw [Option.bind_map]
          rfl
        rw [hhint, hhint, hparts hcut .type rfl]
      · have hchildren := children_outline hcut
        rw [hsame, children_outline (hcuts ▸ hcut)] at hchildren
        exact forall₂_of_outline hchildren.symm

theorem forall₂_of_outline {trees others : List SyntaxTree}
    (hsame : trees.map outline = others.map outline) : List.Forall₂ Alike trees others := by
  cases trees with
  | nil => rw [List.map_eq_nil_iff.mp hsame.symm]; exact .nil
  | cons tree rest =>
      obtain ⟨other, rest', rfl, hfirst, hrest⟩ := List.map_eq_cons_iff.mp hsame.symm
      exact .cons (alike_of_outline hfirst.symm) (forall₂_of_outline hrest.symm)

end

theorem treeGives_congr (imports : Imports) (name : String) {one other : SyntaxTree}
    (hkind : one.kind = other.kind)
    (hsame : one.children.map outline = other.children.map outline) :
    treeGives imports name one = treeGives imports name other :=
  treeGives_of_alike imports name hkind (forall₂_of_outline hsame)

end Names

end CodeGraph
