import CodeGraph.Proofs.Names.Imports
import CodeGraph.Proofs.Syntax.Addresses
import CodeGraph.Reference.Extract

namespace CodeGraph

open Syntax Names

/-! Which node makes a reference: the walk over a chunk, node by node. -/

namespace Walk

def enter (state : Walk) (tree : SyntaxTree) : Walk :=
  match tree.kind with
  | .classDefinition => { state with context := state.context.enterClass tree }
  | .functionDefinition =>
      { context := state.context.enterFunction tree, signatureDue := false }
  | _ => state

def leave (state : Walk) (kind : Kind) : Walk :=
  if kind.isDefinition then { state with context := state.context.exit } else state

end Walk

namespace Reference

/-- The class around the children of a node. -/
def classInside (current : Option String) (tree : SyntaxTree) : Option String :=
  match tree.kind with
  | .classDefinition => ((tree.part? .name).map SyntaxTree.text).orElse fun _ => current
  | _ => current

/-- What a node that is not passed over makes by itself. -/
def madeBy (origin : Origin) (current : Option String) (state : Walk) (tree : SyntaxTree) :
    List Reference :=
  match tree.kind with
  | .classDefinition => ofBases origin state.context tree
  | .functionDefinition =>
      if state.signatureDue then ofSignature origin state.context tree else []
  | _ => ofNode origin state.context current tree

section

variable {tree : SyntaxTree} (hkind : tree.kind.isDefinition = false)

include hkind

theorem classInside_of_not_isDefinition (current : Option String) :
    classInside current tree = current := by
  unfold classInside
  split <;> simp_all [Kind.isDefinition]

theorem madeBy_of_not_isDefinition (origin : Origin) (current : Option String) (state : Walk) :
    madeBy origin current state tree = ofNode origin state.context current tree := by
  unfold madeBy
  split <;> simp_all [Kind.isDefinition]

theorem enter_of_not_isDefinition (state : Walk) : state.enter tree = state := by
  unfold Walk.enter
  split <;> simp_all [Kind.isDefinition]

end

theorem walk_of_isSkipped {origin : Origin} {current : Option String} {depth : Nat} {state : Walk}
    {tree : SyntaxTree} (hskipped : isSkipped origin depth tree.kind = true) :
    walk origin current depth state tree = ([], state) := by
  cases tree with
  | node kind role start stop text children =>
      rw [walk.eq_def]
      exact if_pos hskipped

theorem walk_of_not_isSkipped {origin : Origin} {current : Option String} {depth : Nat}
    {state : Walk} {tree : SyntaxTree} (hvisited : isSkipped origin depth tree.kind = false) :
    walk origin current depth state tree =
      let below := walkAll origin (classInside current tree) (depth + 1) (state.enter tree)
        tree.children
      (madeBy origin current state tree ++ below.1, below.2.leave tree.kind) := by
  cases tree with
  | node kind role start stop text children =>
      rw [walk.eq_def]
      refine (if_neg (by simpa using hvisited)).trans ?_
      split
      · rfl
      · rfl
      · next hclass hfunction =>
          have hkind : (SyntaxTree.node kind role start stop text children).kind.isDefinition =
              false := by
            unfold Kind.isDefinition
            split <;> simp_all
          dsimp only
          rw [classInside_of_not_isDefinition hkind, madeBy_of_not_isDefinition hkind,
            enter_of_not_isDefinition hkind, Walk.leave, hkind]
          rfl

theorem walkAll_cons (origin : Origin) (current : Option String) (depth : Nat) (state : Walk)
    (tree : SyntaxTree) (rest : List SyntaxTree) :
    walkAll origin current depth state (tree :: rest) =
      ((walk origin current depth state tree).1 ++
          (walkAll origin current depth (walk origin current depth state tree).2 rest).1,
        (walkAll origin current depth (walk origin current depth state tree).2 rest).2) := by
  rw [walkAll]

/-- The references that the node at the site makes in the walk over a tree. -/
def referencesAt (origin : Origin) (current : Option String) (depth : Nat) (state : Walk)
    (tree : SyntaxTree) : List Nat → List Reference
  | [] => if isSkipped origin depth tree.kind then [] else madeBy origin current state tree
  | index :: rest =>
      if isSkipped origin depth tree.kind then []
      else
        match tree.children[index]? with
        | none => []
        | some child =>
            let inside := classInside current tree
            let before := walkAll origin inside (depth + 1) (state.enter tree)
              (tree.children.take index)
            referencesAt origin inside (depth + 1) before.2 child rest

/-- The references at a site below one of several trees, which are walked in turn. -/
def referencesAtAll (origin : Origin) (current : Option String) (depth : Nat) (state : Walk)
    (trees : List SyntaxTree) : List Nat → List Reference
  | [] => []
  | index :: rest =>
      match trees[index]? with
      | none => []
      | some tree =>
          referencesAt origin current depth
            (walkAll origin current depth state (trees.take index)).2 tree rest

theorem referencesAt_of_isSkipped {origin : Origin} {depth : Nat} {tree : SyntaxTree}
    (hskipped : isSkipped origin depth tree.kind = true) (current : Option String) (state : Walk)
    (site : List Nat) : referencesAt origin current depth state tree site = [] := by
  cases site <;> exact if_pos hskipped

theorem referencesAt_nil {origin : Origin} {depth : Nat} {tree : SyntaxTree}
    (hvisited : isSkipped origin depth tree.kind = false) (current : Option String)
    (state : Walk) :
    referencesAt origin current depth state tree [] = madeBy origin current state tree := by
  rw [referencesAt]
  exact if_neg (by simpa using hvisited)

theorem referencesAt_cons {origin : Origin} {depth : Nat} {tree : SyntaxTree}
    (hvisited : isSkipped origin depth tree.kind = false) (current : Option String) (state : Walk)
    (index : Nat) (rest : List Nat) :
    referencesAt origin current depth state tree (index :: rest) =
      referencesAtAll origin (classInside current tree) (depth + 1) (state.enter tree)
        tree.children (index :: rest) := by
  rw [referencesAt]
  exact if_neg (by simpa using hvisited)

/-- No node in a decorator makes a reference. -/
theorem referencesAt_of_isWithin (origin : Origin) (current : Option String) (depth : Nat)
    (state : Walk) {tree : SyntaxTree} {site : List Nat}
    (hwithin : tree.isWithin .decorator site = true) :
    referencesAt origin current depth state tree site = [] := by
  induction site generalizing tree current depth state with
  | nil =>
      have hkind : tree.kind = .decorator := eq_of_beq hwithin
      exact referencesAt_of_isSkipped (by rw [hkind]; rfl) current state []
  | cons index rest ih =>
      cases hskipped : isSkipped origin depth tree.kind with
      | true => exact referencesAt_of_isSkipped hskipped current state _
      | false =>
          have hkind : tree.kind ≠ .decorator := by
            rintro hkind
            rw [hkind] at hskipped
            cases hskipped
          rw [referencesAt_cons hskipped, referencesAtAll]
          cases hchild : tree.children[index]? with
          | none => rfl
          | some child =>
              rw [SyntaxTree.isWithin_child hkind hchild] at hwithin
              exact ih _ _ _ hwithin

theorem referencesAtAll_cons (origin : Origin) (current : Option String) (depth : Nat)
    (state : Walk) (tree : SyntaxTree) (rest : List SyntaxTree) (site : List Nat) :
    referencesAtAll origin current depth state (tree :: rest) (SyntaxTree.shift site) =
      referencesAtAll origin current depth (walk origin current depth state tree).2 rest site := by
  cases site with
  | nil => rfl
  | cons index inner =>
      simp only [SyntaxTree.shift, referencesAtAll, List.getElem?_cons_succ, List.take_succ_cons,
        walkAll]

mutual

/-- Every reference of the walk is made at one site, and the sites come in order. -/
theorem walk_eq_flatMap (origin : Origin) (current : Option String) (depth : Nat) (state : Walk)
    (tree : SyntaxTree) :
    (walk origin current depth state tree).1 =
      tree.addresses.flatMap (referencesAt origin current depth state tree) := by
  cases hskipped : isSkipped origin depth tree.kind with
  | true =>
      rw [walk_of_isSkipped hskipped, funext (referencesAt_of_isSkipped hskipped current state)]
      simp
  | false =>
      cases tree with
      | node kind role start stop text children =>
          have hbelow := walkAll_eq_flatMap origin
            (classInside current (.node kind role start stop text children)) (depth + 1)
            (state.enter (.node kind role start stop text children)) children
          rw [walk_of_not_isSkipped hskipped, SyntaxTree.addresses, List.flatMap_cons,
            referencesAt_nil hskipped]
          refine congrArg (_ ++ ·) (hbelow.trans (List.flatMap_congr fun site hmem => ?_))
          obtain ⟨index, rest, rfl⟩ := SyntaxTree.cons_of_mem_addressesOfAll hmem
          exact (referencesAt_cons hskipped current state index rest).symm

theorem walkAll_eq_flatMap (origin : Origin) (current : Option String) (depth : Nat)
    (state : Walk) (trees : List SyntaxTree) :
    (walkAll origin current depth state trees).1 =
      (SyntaxTree.addressesOfAll 0 trees).flatMap
        (referencesAtAll origin current depth state trees) := by
  cases trees with
  | nil =>
      rw [walkAll, SyntaxTree.addressesOfAll]
      rfl
  | cons tree rest =>
      have hfirst := walk_eq_flatMap origin current depth state tree
      have hrest := walkAll_eq_flatMap origin current depth
        (walk origin current depth state tree).2 rest
      rw [walkAll_cons, SyntaxTree.addressesOfAll, SyntaxTree.addressesOfAll_succ,
        List.flatMap_append, List.flatMap_map, List.flatMap_map,
        funext (referencesAtAll_cons _ _ _ _ _ _), ← hrest, hfirst]
      refine congrArg (· ++ _) (List.flatMap_congr fun site _ => ?_)
      rw [referencesAtAll, List.getElem?_cons_zero, List.take_zero, walkAll]

end

/-! The walk opens and closes scopes; what else the context holds stays the same. -/

/-- What a context knows apart from the types of variables. -/
def withoutScopes (state : Walk) : Context :=
  { state.context with scopes := [] }

theorem withoutScopes_enter (state : Walk) (tree : SyntaxTree) :
    withoutScopes (state.enter tree) = withoutScopes state := by
  unfold Walk.enter
  split <;> rfl

theorem withoutScopes_leave (state : Walk) (kind : Kind) :
    withoutScopes (state.leave kind) = withoutScopes state := by
  unfold Walk.leave
  split
  · unfold Context.exit withoutScopes
    split <;> rfl
  · rfl

mutual

theorem withoutScopes_walk (origin : Origin) (current : Option String) (depth : Nat)
    (state : Walk) (tree : SyntaxTree) :
    withoutScopes (walk origin current depth state tree).2 = withoutScopes state := by
  cases hskipped : isSkipped origin depth tree.kind with
  | true => rw [walk_of_isSkipped hskipped]
  | false =>
      cases tree with
      | node kind role start stop text children =>
          have hbelow := withoutScopes_walkAll origin
            (classInside current (.node kind role start stop text children)) (depth + 1)
            (state.enter (.node kind role start stop text children)) children
          rw [walk_of_not_isSkipped hskipped]
          exact (withoutScopes_leave _ kind).trans (hbelow.trans (withoutScopes_enter state _))

theorem withoutScopes_walkAll (origin : Origin) (current : Option String) (depth : Nat)
    (state : Walk) (trees : List SyntaxTree) :
    withoutScopes (walkAll origin current depth state trees).2 = withoutScopes state := by
  cases trees with
  | nil => rw [walkAll]
  | cons tree rest =>
      rw [walkAll_cons]
      exact (withoutScopes_walkAll origin current depth _ rest).trans
        (withoutScopes_walk origin current depth state tree)

end

theorem file_enter (state : Walk) (tree : SyntaxTree) :
    (state.enter tree).context.file = state.context.file := by
  have hsame := congrArg Context.file (withoutScopes_enter state tree)
  exact hsame

theorem file_walk (origin : Origin) (current : Option String) (depth : Nat) (state : Walk)
    (tree : SyntaxTree) :
    (walk origin current depth state tree).2.context.file = state.context.file := by
  have hsame := congrArg Context.file (withoutScopes_walk origin current depth state tree)
  exact hsame

theorem file_walkAll (origin : Origin) (current : Option String) (depth : Nat) (state : Walk)
    (trees : List SyntaxTree) :
    (walkAll origin current depth state trees).2.context.file = state.context.file := by
  have hsame := congrArg Context.file (withoutScopes_walkAll origin current depth state trees)
  exact hsame

/-! Calls -/

def countCalls (references : List Reference) : Nat :=
  references.countP fun reference => reference.relation == .calls

/-- A call of a name, an attribute, a call, a subscript or a lambda, with no parentheses around
it. -/
def IsDirectCall (tree : SyntaxTree) : Prop :=
  tree.kind = .call ∧ ∃ callee, tree.part? .function = some callee ∧
    callee.kind ∈ [.identifier, .memberAccess, .call, .subscript, .lambda]

theorem countCalls_at? (origin : Origin) (tree : SyntaxTree) (isMethodCall : Bool)
    {target : String} (htarget : target ≠ "") :
    countCalls (at? origin tree .calls isMethodCall target).toList = 1 := by
  rw [at?, if_neg htarget]
  rfl

theorem methodTarget_ne_empty (context : Context) (current : Option String)
    (receiver : SyntaxTree) {method : String} (hmethod : method ≠ "") :
    methodTarget context current receiver method ≠ "" := by
  unfold methodTarget
  split
  · simp
  · exact hmethod

theorem callee?_of_ne {tree : SyntaxTree} (hkind : tree.kind ≠ .parenthesizedExpression) :
    callee? tree = some tree := by
  cases tree with
  | node kind role start stop text children =>
      rw [callee?]
      exact if_neg hkind

/-- A direct call names its target. -/
theorem callTarget?_of_isDirectCall {call : SyntaxTree} (hcall : call.Grammatical)
    (hdirect : IsDirectCall call) {context : Context} {text : String}
    (hfile : context.file = .ofText text) (current : Option String) :
    ∃ target isMethodCall, callTarget? context current call = some (target, isMethodCall) ∧
      target ≠ "" := by
  obtain ⟨-, callee, hcallee, hkind⟩ := hdirect
  have hformed := (hcall.child (List.mem_of_find?_eq_some hcallee)).formed
  have hfunction : (call.part? .function).bind callee? = some callee := by
    rw [hcallee]
    refine callee?_of_ne ?_
    rintro hparenthesized
    rw [hparenthesized] at hkind
    simp at hkind
  rw [SyntaxTree.Formed] at hformed
  simp only [List.mem_cons, List.not_mem_nil, or_false] at hkind
  rcases hkind with hkind | hkind | hkind | hkind | hkind
  · rw [hkind] at hformed
    refine ⟨context.unalias callee.text, false, by simp [callTarget?, hfunction, hkind], ?_⟩
    rw [Context.unalias, hfile]
    exact unalias_ofText_ne_empty text hformed.1
  · rw [hkind] at hformed
    obtain ⟨object, member, hobject, hmember, hname, -⟩ := hformed
    exact ⟨methodTarget context current object member.text, true,
      by simp [callTarget?, hfunction, hkind, hobject, hmember],
      methodTarget_ne_empty context current object hname⟩
  · exact ⟨"call_result", false, by simp [callTarget?, hfunction, hkind], by decide⟩
  · exact ⟨"subscript_result", false, by simp [callTarget?, hfunction, hkind], by decide⟩
  · exact ⟨"lambda", false, by simp [callTarget?, hfunction, hkind], by decide⟩

theorem countCalls_madeBy {call : SyntaxTree} (hcall : call.Grammatical)
    (hdirect : IsDirectCall call) (origin : Origin) (current : Option String) {state : Walk}
    {text : String} (hfile : state.context.file = .ofText text) :
    countCalls (madeBy origin current state call) = 1 := by
  obtain ⟨target, isMethodCall, hcallee, htarget⟩ :=
    callTarget?_of_isDirectCall hcall hdirect hfile current
  have hkind := hdirect.1
  have hdefinition : call.kind.isDefinition = false := by
    rw [hkind]
    rfl
  rw [madeBy_of_not_isDefinition hdefinition, ofNode, hkind]
  simp only [ofCall, hcallee]
  exact countCalls_at? origin call isMethodCall htarget

/-- The walk does not reach the site: a node on the way is passed over. -/
def isPassedOver (origin : Origin) (depth : Nat) (tree : SyntaxTree) : List Nat → Bool
  | [] => isSkipped origin depth tree.kind
  | index :: rest =>
      isSkipped origin depth tree.kind ||
        match tree.children[index]? with
        | some child => isPassedOver origin (depth + 1) child rest
        | none => false

theorem countCalls_referencesAt {call : SyntaxTree} (hdirect : IsDirectCall call)
    {text : String} (origin : Origin) {tree : SyntaxTree} (htree : tree.Grammatical)
    (current : Option String) (depth : Nat) {state : Walk}
    (hfile : state.context.file = .ofText text) {site : List Nat}
    (hcall : tree.at? site = some call) :
    countCalls (referencesAt origin current depth state tree site) =
      if isPassedOver origin depth tree site then 0 else 1 := by
  induction site generalizing tree current depth state with
  | nil =>
      cases hcall
      cases hskipped : isSkipped origin depth call.kind with
      | true =>
          rw [referencesAt_of_isSkipped hskipped, isPassedOver, hskipped]
          rfl
      | false =>
          rw [referencesAt_nil hskipped, isPassedOver, hskipped,
            countCalls_madeBy htree hdirect origin current hfile]
          rfl
  | cons index rest ih =>
      cases hskipped : isSkipped origin depth tree.kind with
      | true =>
          rw [referencesAt_of_isSkipped hskipped, isPassedOver, hskipped]
          rfl
      | false =>
          rw [SyntaxTree.at?_cons] at hcall
          obtain ⟨child, hchild, hbelow⟩ := Option.bind_eq_some_iff.mp hcall
          have hbefore := (file_walkAll origin (classInside current tree) (depth + 1)
            (state.enter tree) (tree.children.take index)).trans (file_enter state tree)
          rw [referencesAt_cons hskipped, referencesAtAll, isPassedOver, hskipped, hchild]
          exact ih (htree.child (List.mem_of_getElem? hchild)) _ _ (hbefore.trans hfile) hbelow

theorem isSkipped_of_below {origin : Origin} {depth : Nat}
    (hbelow : origin.kind ≠ .fileLevel ∨ 1 < depth) (kind : Kind) :
    isSkipped origin depth kind = (kind == .decorator) := by
  have hmodule : (depth == 1 && origin.kind == .fileLevel) = false := by
    rcases hbelow with hkind | hdepth
    · simp [hkind]
    · simp [Nat.ne_of_gt hdepth]
  unfold isSkipped
  split
  · rfl
  · exact hmodule
  · exact hmodule
  · exact hmodule
  · next hdecorator _ _ _ => simpa using hdecorator

/-- Apart from the statements of a whole file, the walk passes over decorators only. -/
theorem isPassedOver_of_below {origin : Origin} {depth : Nat}
    (hbelow : origin.kind ≠ .fileLevel ∨ 1 < depth) (tree : SyntaxTree) (site : List Nat) :
    isPassedOver origin depth tree site = tree.isWithin .decorator site := by
  induction site generalizing tree depth with
  | nil => exact isSkipped_of_below hbelow tree.kind
  | cons index rest ih =>
      have hdeeper : origin.kind ≠ .fileLevel ∨ 1 < depth + 1 := hbelow.imp_right Nat.lt_succ_of_lt
      rw [isPassedOver, SyntaxTree.isWithin, isSkipped_of_below hbelow]
      cases tree.children[index]? with
      | none => rfl
      | some child => exact congrArg _ (ih hdeeper child)

/-! Chunks -/

def originOf (chunk : Chunk) : Origin :=
  { id := chunk.id, kind := chunk.kind, startLine := chunk.startLine }

/-- The references that the node at the site makes in the chunk of the given tree. -/
def madeIn (chunk : Chunk) (file : FileContext) (root : SyntaxTree) (site : List Nat) :
    List Reference :=
  let context := Context.ofTree file root chunk.parentName
  referencesAt (originOf chunk) context.enclosingClass 0
    { context, signatureDue := chunk.kind == .function || chunk.kind == .method } root site

theorem ofTree_eq_flatMap (chunk : Chunk) (file : FileContext) (root : SyntaxTree) :
    ofTree chunk file root = root.addresses.flatMap (madeIn chunk file root) :=
  walk_eq_flatMap _ _ _ _ root

theorem countCalls_madeIn {root call : SyntaxTree} (hroot : root.Grammatical) {site : List Nat}
    (hcall : root.at? site = some call) (hdirect : IsDirectCall call) (chunk : Chunk)
    (text : String) :
    countCalls (madeIn chunk (.ofText text) root site) =
      if isPassedOver (originOf chunk) 0 root site then 0 else 1 :=
  countCalls_referencesAt hdirect (originOf chunk) hroot _ 0 rfl hcall

end Reference

end CodeGraph
