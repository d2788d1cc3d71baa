import CodeGraph.Proofs.Reference.Sites

namespace CodeGraph

open Syntax Names

/-! The walk when it arrives at a node: the class around the node, and the scopes that are open
there. -/

namespace Syntax.SyntaxTree

/-- The definitions that hold the site, the innermost first. -/
def definitionsAround (tree : SyntaxTree) : List Nat → List SyntaxTree
  | [] => []
  | index :: rest =>
      let inside :=
        match tree.children[index]? with
        | some child => child.definitionsAround rest
        | none => []
      if tree.kind.isDefinition then inside ++ [tree] else inside

theorem definitionsAround_cons {tree child : SyntaxTree} {index : Nat}
    (hchild : tree.children[index]? = some child) (rest : List Nat) :
    tree.definitionsAround (index :: rest) =
      if tree.kind.isDefinition then child.definitionsAround rest ++ [tree]
      else child.definitionsAround rest := by
  rw [definitionsAround, hchild]

theorem definitionsAround_append {tree inner : SyntaxTree} {place : List Nat}
    (hinner : tree.at? place = some inner) (rest : List Nat) :
    tree.definitionsAround (place ++ rest) =
      inner.definitionsAround rest ++ tree.definitionsAround place := by
  induction place generalizing tree with
  | nil =>
      cases hinner
      exact (List.append_nil _).symm
  | cons index place ih =>
      obtain ⟨child, hchild, hbelow⟩ := exists_child_of_at? hinner
      rw [List.cons_append, definitionsAround_cons hchild, definitionsAround_cons hchild, ih hbelow]
      split
      · rw [List.append_assoc]
      · rfl

/-- Directly in a definition, it is the innermost around the site. -/
theorem definitionsAround_inside {tree definition part : SyntaxTree} {place : List Nat}
    (hdefinition : tree.at? place = some definition) (hkind : definition.kind.isDefinition = true)
    {index : Nat} (hpart : definition.children[index]? = some part) {rest : List Nat}
    (hnone : part.definitionsAround rest = []) :
    tree.definitionsAround (place ++ index :: rest) =
      definition :: tree.definitionsAround place := by
  rw [definitionsAround_append hdefinition, definitionsAround_cons hpart, if_pos hkind, hnone]
  rfl

/-- The innermost class that holds the site. -/
def classAround? (tree : SyntaxTree) (site : List Nat) : Option SyntaxTree :=
  (tree.definitionsAround site).find? fun definition => definition.kind == .classDefinition

theorem classAround?_cons {tree child : SyntaxTree} {index : Nat}
    (hchild : tree.children[index]? = some child) (rest : List Nat) :
    tree.classAround? (index :: rest) =
      (child.classAround? rest).or (if tree.kind = .classDefinition then some tree else none) := by
  rw [classAround?, definitionsAround_cons hchild, classAround?]
  split
  · rw [List.find?_append, List.find?_singleton]
    simp only [beq_iff_eq]
  · next hkind =>
      have hclass : tree.kind ≠ .classDefinition := by
        rintro hclass
        rw [hclass] at hkind
        exact hkind rfl
      rw [if_neg hclass, Option.or_none]

theorem mem_addressesOfAll {trees : List SyntaxTree} {index : Nat} {tree : SyntaxTree}
    (htree : trees[index]? = some tree) {rest : List Nat} (hrest : rest ∈ tree.addresses)
    (base : Nat) : (base + index) :: rest ∈ addressesOfAll base trees := by
  induction trees generalizing index base with
  | nil => cases htree
  | cons first others ih =>
      rw [addressesOfAll, List.mem_append]
      cases index with
      | zero =>
          cases htree
          exact .inl (List.mem_map_of_mem hrest)
      | succ index =>
          rw [← Nat.add_assoc, Nat.add_right_comm]
          exact .inr (ih htree (base + 1))

/-- Every node of a tree has its address among those of the tree. -/
theorem mem_addresses_of_at? {tree inner : SyntaxTree} {site : List Nat}
    (hinner : tree.at? site = some inner) : site ∈ tree.addresses := by
  induction site generalizing tree with
  | nil =>
      cases tree
      rw [addresses]
      exact List.mem_cons_self
  | cons index rest ih =>
      obtain ⟨child, hchild, hbelow⟩ := exists_child_of_at? hinner
      cases tree with
      | node kind role start stop text children =>
          rw [addresses, ← Nat.zero_add index]
          exact List.mem_cons_of_mem _ (mem_addressesOfAll hchild (ih hbelow) 0)

theorem Grammatical.of_at? {tree inner : SyntaxTree} (htree : tree.Grammatical) {site : List Nat}
    (hinner : tree.at? site = some inner) : inner.Grammatical := by
  induction site generalizing tree with
  | nil =>
      cases hinner
      exact htree
  | cons index rest ih =>
      obtain ⟨child, hchild, hbelow⟩ := exists_child_of_at? hinner
      exact ih (htree.child (List.mem_of_getElem? hchild)) hbelow

end Syntax.SyntaxTree

namespace Reference

/-- The class around the node at the site. -/
def classAt (current : Option String) (tree : SyntaxTree) : List Nat → Option String
  | [] => current
  | index :: rest =>
      match tree.children[index]? with
      | some child => classAt (classInside current tree) child rest
      | none => none

/-- The state of the walk over a tree when it arrives at the site. -/
def stateAt (origin : Origin) (current : Option String) (depth : Nat) (state : Walk)
    (tree : SyntaxTree) : List Nat → Walk
  | [] => state
  | index :: rest =>
      match tree.children[index]? with
      | some child =>
          let inside := classInside current tree
          stateAt origin inside (depth + 1)
            (walkAll origin inside (depth + 1) (state.enter tree) (tree.children.take index)).2
            child rest
      | none => state

theorem withoutScopes_stateAt (origin : Origin) (current : Option String) (depth : Nat)
    (state : Walk) (tree : SyntaxTree) (site : List Nat) :
    withoutScopes (stateAt origin current depth state tree site) = withoutScopes state := by
  induction site generalizing tree current depth state with
  | nil => rfl
  | cons index rest ih =>
      rw [stateAt]
      split
      · exact (ih _ _ _ _).trans
          ((withoutScopes_walkAll _ _ _ _ _).trans (withoutScopes_enter state tree))
      · rfl

/-- A node that the walk reaches makes its references in the state of the arrival. -/
theorem referencesAt_eq_madeBy (origin : Origin) (current : Option String) (depth : Nat)
    (state : Walk) {tree inner : SyntaxTree} {site : List Nat}
    (hinner : tree.at? site = some inner) (hreached : isPassedOver origin depth tree site = false) :
    referencesAt origin current depth state tree site =
      madeBy origin (classAt current tree site) (stateAt origin current depth state tree site)
        inner := by
  induction site generalizing tree current depth state with
  | nil =>
      cases hinner
      exact referencesAt_nil hreached current state
  | cons index rest ih =>
      obtain ⟨child, hchild, hbelow⟩ := SyntaxTree.exists_child_of_at? hinner
      rw [isPassedOver, hchild, Bool.or_eq_false_iff] at hreached
      rw [referencesAt_cons hreached.1, referencesAtAll, classAt, stateAt, hchild]
      exact ih _ _ _ hbelow hreached.2

section ClassAt

variable {tree : SyntaxTree} {site : List Nat} {inner : SyntaxTree}
variable (hinner : tree.at? site = some inner) (current : Option String)

include hinner

/-- Without a class on the way, the class around the site is the one around the tree. -/
theorem classAt_of_classAround?_eq_none (hnone : tree.classAround? site = none) :
    classAt current tree site = current := by
  induction site generalizing tree current with
  | nil => rfl
  | cons index rest ih =>
      obtain ⟨child, hchild, hbelow⟩ := SyntaxTree.exists_child_of_at? hinner
      rw [SyntaxTree.classAround?_cons hchild, Option.or_eq_none_iff] at hnone
      have hclass : tree.kind ≠ .classDefinition := fun hclass => by simp [hclass] at hnone
      have hsame : classInside current tree = current := by
        unfold classInside
        split
        · next hkind => exact absurd hkind hclass
        · rfl
      rw [classAt, hchild]
      dsimp only
      rw [hsame]
      exact ih hbelow current hnone.1

/-- The innermost class on the way gives its name. -/
theorem classAt_of_classAround? {definition name : SyntaxTree}
    (hclass : tree.classAround? site = some definition)
    (hname : definition.part? .name = some name) :
    classAt current tree site = some name.text := by
  induction site generalizing tree current with
  | nil => cases hclass
  | cons index rest ih =>
      obtain ⟨child, hchild, hbelow⟩ := SyntaxTree.exists_child_of_at? hinner
      rw [SyntaxTree.classAround?_cons hchild, Option.or_eq_some_iff] at hclass
      rw [classAt, hchild]
      rcases hclass with hinside | ⟨hnone, hhere⟩
      · exact ih hbelow _ hinside
      · split at hhere
        · next hkind =>
            cases hhere
            dsimp only
            rw [classAt_of_classAround?_eq_none hbelow _ hnone, classInside, hkind]
            simp [hname]
        · cases hhere

end ClassAt

/-! Calls that the walk reaches -/

/-- The site lies in no decorator and, in the chunk of a file, in no definition of its top level. -/
structure IsReached (chunk : Chunk) (root : SyntaxTree) (site : List Nat) : Prop where
  outside_decorators : root.isWithin .decorator site = false
  outside_definitions : chunk.kind = .fileLevel → ∀ index rest statement,
    site = index :: rest → root.children[index]? = some statement →
      statement.kind ∉ [.functionDefinition, .classDefinition, .decoratedDefinition]

/-- In a statement that is no definition, the walk passes over decorators only. -/
theorem isPassedOver_of_plain (origin : Origin) {statement : SyntaxTree}
    (hplain : statement.kind ∉ [.functionDefinition, .classDefinition, .decoratedDefinition])
    (site : List Nat) :
    isPassedOver origin 1 statement site = statement.isWithin .decorator site := by
  have hskipped : isSkipped origin 1 statement.kind = (statement.kind == .decorator) := by
    simp only [List.mem_cons, List.not_mem_nil, or_false, not_or] at hplain
    unfold isSkipped
    split <;> simp_all
  cases site with
  | nil => exact hskipped
  | cons index rest =>
      rw [isPassedOver, SyntaxTree.isWithin, hskipped]
      cases statement.children[index]? with
      | none => rfl
      | some child => exact congrArg _ (isPassedOver_of_below (.inr (by decide)) child rest)

theorem IsReached.isPassedOver_eq {chunk : Chunk} {root : SyntaxTree} {site : List Nat}
    (hreached : IsReached chunk root site) :
    isPassedOver (originOf chunk) 0 root site = false := by
  obtain ⟨hdecorators, hdefinitions⟩ := hreached
  by_cases hfile : chunk.kind = .fileLevel
  · have hroot : isSkipped (originOf chunk) 0 root.kind = (root.kind == .decorator) := by
      unfold isSkipped
      split <;> simp_all
    cases site with
    | nil => exact hroot.trans hdecorators
    | cons index rest =>
        rw [SyntaxTree.isWithin] at hdecorators
        rw [isPassedOver, hroot]
        cases hchild : root.children[index]? with
        | none =>
            rw [hchild] at hdecorators
            exact hdecorators
        | some statement =>
            rw [hchild] at hdecorators
            dsimp only at hdecorators ⊢
            rw [isPassedOver_of_plain _ (hdefinitions hfile index rest statement rfl hchild)]
            exact hdecorators
  · rw [isPassedOver_of_below (.inl hfile)]
    exact hdecorators

/-- Below a node that the walk reaches, it passes over decorators only. -/
theorem IsReached.append {chunk : Chunk} {root inner : SyntaxTree} {place rest : List Nat}
    (hreached : IsReached chunk root place) (hbelow : place ≠ [])
    (hinner : root.at? place = some inner) (hrest : inner.isWithin .decorator rest = false) :
    IsReached chunk root (place ++ rest) where
  outside_decorators := by
    rw [SyntaxTree.isWithin_append hinner, hreached.outside_decorators, hrest]
    rfl
  outside_definitions := by
    intro hfile index later statement hsite hstatement
    cases place with
    | nil => exact absurd rfl hbelow
    | cons first place =>
        cases hsite
        exact hreached.outside_definitions hfile index place statement rfl hstatement

/-- The call of a method on the receiver, with no parentheses around the callee. -/
structure IsMethodCall (call receiver : SyntaxTree) (method : String) : Prop where
  kind_eq : call.kind = .call
  callee : ∃ callee member, call.part? .function = some callee ∧ callee.kind = .memberAccess ∧
    callee.part? .object = some receiver ∧ callee.part? .member = some member ∧
    member.text = method

theorem IsMethodCall.callTarget?_eq {call receiver : SyntaxTree} {method : String}
    (hcall : IsMethodCall call receiver method) (context : Context) (current : Option String) :
    callTarget? context current call =
      some (methodTarget context current receiver method, true) := by
  obtain ⟨callee, member, hcallee, hkind, hobject, hmember, rfl⟩ := hcall.callee
  have hfunction : (call.part? .function).bind callee? = some callee := by
    rw [hcallee]
    refine callee?_of_ne ?_
    rw [hkind]
    decide
  simp [callTarget?, hfunction, hkind, hobject, hmember]

/-- The reference of a call in a chunk. -/
def callReference (chunk : Chunk) (call : SyntaxTree) (target : String) (isMethodCall : Bool) :
    Reference :=
  { source := chunk.id, target, relation := .calls, line := chunk.startLine + call.start.row,
    isMethodCall }

/-- The state of the walk over a chunk when it arrives at the site. -/
def stateIn (chunk : Chunk) (file : FileContext) (root : SyntaxTree) (site : List Nat) : Walk :=
  let context := Context.ofTree file root chunk.parentName
  stateAt (originOf chunk) context.enclosingClass 0
    { context, signatureDue := chunk.kind == .function || chunk.kind == .method } root site

/-- On the way to a site only scopes change. -/
theorem withoutScopes_stateIn (chunk : Chunk) (file : FileContext) (root : SyntaxTree)
    (site : List Nat) :
    withoutScopes (stateIn chunk file root site) =
      { Context.ofTree file root chunk.parentName with scopes := [] } :=
  withoutScopes_stateAt _ _ _ _ root site

theorem file_stateIn (chunk : Chunk) (file : FileContext) (root : SyntaxTree) (site : List Nat) :
    (stateIn chunk file root site).context.file = file := by
  have hsame := congrArg Context.file (withoutScopes_stateIn chunk file root site)
  exact hsame

theorem mem_ofTree_of_madeIn {chunk : Chunk} {file : FileContext} {root inner : SyntaxTree}
    {site : List Nat} (hinner : root.at? site = some inner) {reference : Reference}
    (hmade : reference ∈ madeIn chunk file root site) : reference ∈ ofTree chunk file root := by
  rw [ofTree_eq_flatMap]
  exact List.mem_flatMap.mpr ⟨site, SyntaxTree.mem_addresses_of_at? hinner, hmade⟩

/-- The class around the site in a chunk. -/
def classIn (chunk : Chunk) (file : FileContext) (root : SyntaxTree) (site : List Nat) :
    Option String :=
  classAt (Context.ofTree file root chunk.parentName).enclosingClass root site

/-- A call that the walk reaches is resolved in the state of the arrival. -/
theorem madeIn_of_call {chunk : Chunk} (file : FileContext) {root call : SyntaxTree}
    {site : List Nat} (hcall : root.at? site = some call) (hkind : call.kind = .call)
    (hreached : IsReached chunk root site) :
    madeIn chunk file root site =
      ofCall (originOf chunk) (stateIn chunk file root site).context
        (classIn chunk file root site) call := by
  have hdefinition : call.kind.isDefinition = false := by
    rw [hkind]
    rfl
  rw [madeIn, referencesAt_eq_madeBy _ _ _ _ hcall hreached.isPassedOver_eq,
    madeBy_of_not_isDefinition hdefinition, ofNode, hkind]
  rfl

/-- A method call that the walk reaches makes one reference, unless the target has no name. -/
theorem IsMethodCall.madeIn_eq {call receiver : SyntaxTree} {method : String}
    (hmethod : IsMethodCall call receiver method) {chunk : Chunk} (file : FileContext)
    {root : SyntaxTree} {site : List Nat} (hcall : root.at? site = some call)
    (hreached : IsReached chunk root site)
    (htarget : methodTarget (stateIn chunk file root site).context (classIn chunk file root site)
      receiver method ≠ "") :
    madeIn chunk file root site =
      [callReference chunk call
        (methodTarget (stateIn chunk file root site).context (classIn chunk file root site)
          receiver method) true] := by
  rw [madeIn_of_call file hcall hmethod.kind_eq hreached]
  simp only [ofCall, hmethod.callTarget?_eq]
  exact congrArg Option.toList (if_neg htarget)

end Reference

end CodeGraph
