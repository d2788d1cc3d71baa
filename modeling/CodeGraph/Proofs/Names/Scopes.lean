import CodeGraph.Names.Context
import Mathlib.Data.List.Nodup

namespace CodeGraph

open Syntax

/-! What a scope tells about a variable: the last typed write to it or, in a function, the hint of
the parameter.  A class also gives the attributes that functions record with it. -/

/-! The last entry of a name wins. -/

namespace NameMap

variable {α : Type}

theorem get?_insertAll_eq (map : NameMap α) (entries : List (String × α)) (name : String) :
    (map.insertAll entries).get? name =
      ((entries.reverse.find? fun entry => entry.1 == name).map Prod.snd).or (map.get? name) := by
  induction entries generalizing map with
  | nil => rfl
  | cons entry rest ih =>
      have hstep : map.insertAll (entry :: rest) = (map.insert entry.1 entry.2).insertAll rest :=
        rfl
      rw [hstep, ih, get?_insert, List.reverse_cons, List.find?_append, Option.map_or,
        Option.or_assoc, List.find?_singleton]
      congr 1
      by_cases hname : entry.1 = name <;> simp [hname]

theorem get?_ofList (entries : List (String × α)) (name : String) :
    (ofList entries).get? name =
      (entries.reverse.find? fun entry => entry.1 == name).map Prod.snd := by
  rw [ofList, get?_insertAll_eq, get?_nil, Option.or_none]

theorem sorted_insertAll {map : NameMap α} (hsorted : (map.map Prod.fst).Pairwise (· < ·))
    (entries : List (String × α)) :
    ((map.insertAll entries).map Prod.fst).Pairwise (· < ·) := by
  induction entries generalizing map with
  | nil => exact hsorted
  | cons entry rest ih => exact ih (sorted_insert hsorted _ _)

theorem sorted_ofList (entries : List (String × α)) :
    ((ofList entries).map Prod.fst).Pairwise (· < ·) :=
  sorted_insertAll List.Pairwise.nil entries

theorem get?_insertAll_of_sorted (map : NameMap α) {upper : NameMap α}
    (hsorted : (upper.map Prod.fst).Pairwise (· < ·)) (name : String) :
    (map.insertAll upper).get? name = (upper.get? name).or (map.get? name) := by
  have hlast : (upper.reverse.find? fun entry => entry.1 == name).map Prod.snd =
      upper.get? name := by
    induction upper with
    | nil => rfl
    | cons entry rest ih =>
        rw [List.map_cons, List.pairwise_cons] at hsorted
        rw [List.reverse_cons, List.find?_append, Option.map_or, ih hsorted.2, get?_cons]
        by_cases hname : entry.1 = name
        · have hnone : get? rest name = none := by
            rw [get?, Option.map_eq_none_iff, List.find?_eq_none]
            intro other hother hsame
            have hlt := hsorted.1 other.1 (List.mem_map_of_mem hother)
            rw [beq_iff_eq.mp hsame, hname] at hlt
            exact String.lt_irrefl _ hlt
          rw [hnone]
          simp [hname]
        · simp [hname]
  rw [get?_insertAll_eq, hlast]

end NameMap

namespace Names

/-! Typed writes -/

/-- Nested definitions, lambdas and augmented assignments, which write nothing in the scope around
them. -/
def isApart (kind : Kind) : Bool :=
  [.functionDefinition, .classDefinition, .decoratedDefinition, .lambda,
    .augmentedAssignment].contains kind

theorem hidesWrites_eq_isApart (kind : Kind) : hidesWrites kind = isApart kind := by
  cases kind <;> rfl

mutual

/-- The nodes of a scope in source order, without anything inside of nested definitions, lambdas
and augmented assignments. -/
def ownNodes : SyntaxTree → List SyntaxTree
  | .node kind role start stop text children =>
      if isApart kind then []
      else .node kind role start stop text children :: ownNodesOfAll children

def ownNodesOfAll : List SyntaxTree → List SyntaxTree
  | [] => []
  | tree :: rest => ownNodes tree ++ ownNodesOfAll rest

end

mutual

theorem typedWrites_eq (imports : Imports) (tree : SyntaxTree) :
    typedWrites imports tree = (ownNodes tree).filterMap (write? imports) := by
  cases tree with
  | node kind role start stop text children =>
      rw [typedWrites, ownNodes, hidesWrites_eq_isApart]
      split
      · rfl
      · rw [List.filterMap_cons, typedWritesOfAll_eq]
        cases write? imports (.node kind role start stop text children) <;> rfl

theorem typedWritesOfAll_eq (imports : Imports) (trees : List SyntaxTree) :
    typedWritesOfAll imports trees = (ownNodesOfAll trees).filterMap (write? imports) := by
  cases trees with
  | nil =>
      rw [typedWritesOfAll, ownNodesOfAll]
      rfl
  | cons tree rest =>
      rw [typedWritesOfAll, ownNodesOfAll, List.filterMap_append, typedWrites_eq,
        typedWritesOfAll_eq]

end

/-- The type that the last typed write to a variable gives it. -/
def lastWrite? (imports : Imports) (name : String) (scope : SyntaxTree) : Option String :=
  let writes := (ownNodesOfAll scope.children).filterMap (write? imports)
  (writes.reverse.find? fun write => write.1 == name).map Prod.snd

theorem get?_assignedTypes (imports : Imports) (scope : SyntaxTree) (name : String) :
    (assignedTypes imports scope).get? name = lastWrite? imports name scope := by
  rw [assignedTypes, NameMap.get?_ofList, typedWritesOfAll_eq, lastWrite?]

def lastParameter? (name : String) (function : SyntaxTree) : Option String :=
  (function.part? .parameters).bind fun parameters =>
    ((parameters.namedChildren.filterMap parameterType?).reverse.find? fun typed =>
      typed.1 == name).map Prod.snd

theorem get?_parameterTypes (function : SyntaxTree) (name : String) :
    (parameterTypes function).get? name = lastParameter? name function := by
  rw [parameterTypes, lastParameter?]
  cases function.part? .parameters with
  | none => rfl
  | some parameters => exact NameMap.get?_ofList _ name

/-! Scopes -/

/-- The type that a definition, or the top level, gives a variable. -/
def scopeType? (imports : Imports) (name : String) (scope : SyntaxTree) : Option String :=
  match scope.kind with
  | .functionDefinition =>
      ((scope.part? .body).bind (lastWrite? imports name)).or (lastParameter? name scope)
  | .classDefinition => (scope.part? .body).bind (lastWrite? imports name)
  | _ => lastWrite? imports name scope

/-- The type of a variable where the scopes are open, the innermost of them first.  A class body
is seen only from directly inside of it. -/
def seenType? (imports : Imports) (name : String) : List SyntaxTree → Option String
  | [] => none
  | inner :: outer =>
      (inner :: outer.filter fun scope => scope.kind != .classDefinition).findSome?
        (scopeType? imports name)

/-- What `name.method` stands for where the scopes are open. -/
def plainTarget (imports : Imports) (name method : String) (scopes : List SyntaxTree) : String :=
  match seenType? imports name scopes with
  | some type => unalias imports type ++ "." ++ method
  | none =>
      match imports.get? name with
      | some imported => imported.symbol ++ "." ++ method
      | none => method

/-! What the open scopes of a context give a variable -/

def Scope.gives (name : String) (scope : Scope) : ScopeKind × Option String :=
  (scope.kind, scope.types.get? name)

def treeScopeKind (scope : SyntaxTree) : ScopeKind :=
  match scope.kind with
  | .functionDefinition => .functionBody
  | .classDefinition => .classBody
  | _ => .topLevel

def treeGives (imports : Imports) (name : String) (scope : SyntaxTree) :
    ScopeKind × Option String :=
  (treeScopeKind scope, scopeType? imports name scope)

/-- The first type that is given, apart from those of outer class bodies. -/
def firstGiven? : List (ScopeKind × Option String) → Option String
  | [] => none
  | inner :: outer =>
      inner.2.or ((outer.filter fun given => given.1 != .classBody).findSome? Prod.snd)

theorem typeOf?_eq_firstGiven? {name : String} (hplain : isAttributeKey name = false)
    (context : Context) :
    context.typeOf? name = firstGiven? (context.scopes.map (Scope.gives name)) := by
  rw [Context.typeOf?]
  cases context.scopes with
  | nil => rfl
  | cons inner outer =>
      have hvisible : Context.visibleFromInside name = fun scope => scope.kind != .classBody := by
        funext scope
        rw [Context.visibleFromInside, hplain, Bool.or_false]
      dsimp only
      rw [List.map_cons, firstGiven?, List.filter_map, List.findSome?_map, Option.orElse_eq_or,
        hvisible]
      rfl

theorem treeScopeKind_eq_classBody {scope : SyntaxTree} :
    treeScopeKind scope = .classBody ↔ scope.kind = .classDefinition := by
  unfold treeScopeKind
  split <;> simp_all

theorem seenType?_eq_firstGiven? (imports : Imports) (name : String) (scopes : List SyntaxTree) :
    seenType? imports name scopes = firstGiven? (scopes.map (treeGives imports name)) := by
  cases scopes with
  | nil => rfl
  | cons inner outer =>
      have houter : (fun scope : SyntaxTree => scope.kind != .classDefinition) =
          (fun given : ScopeKind × Option String => given.1 != .classBody) ∘
            treeGives imports name := by
        funext scope
        rw [Bool.eq_iff_iff, bne_iff_ne, Function.comp_apply, bne_iff_ne]
        exact (not_congr treeScopeKind_eq_classBody).symm
      rw [List.map_cons, firstGiven?, List.filter_map, List.findSome?_map, ← houter, seenType?,
        List.findSome?_cons]
      cases hinner : scopeType? imports name inner with
      | none => simp [treeGives, hinner, Function.comp_def]
      | some type => simp [treeGives, hinner]

/-! Entering a definition opens the scope of its syntax tree. -/

theorem get?_functionTypes (imports : Imports) {function : SyntaxTree}
    (hkind : function.kind = .functionDefinition) (name : String) :
    (Context.functionTypes imports function).get? name = scopeType? imports name function := by
  rw [Context.functionTypes, scopeType?, hkind]
  cases function.part? .body with
  | none => exact get?_parameterTypes function name
  | some body =>
      dsimp only [Option.bind_some]
      rw [← get?_assignedTypes, ← get?_parameterTypes]
      exact NameMap.get?_insertAll_of_sorted _ (NameMap.sorted_ofList _) name

theorem sorted_functionTypes (imports : Imports) (function : SyntaxTree) :
    ((Context.functionTypes imports function).map Prod.fst).Pairwise (· < ·) := by
  have hparameters : ((parameterTypes function).map Prod.fst).Pairwise (· < ·) := by
    unfold parameterTypes
    split
    · exact NameMap.sorted_ofList _
    · exact List.Pairwise.nil
  unfold Context.functionTypes
  dsimp only
  split
  · exact NameMap.sorted_insertAll hparameters _
  · exact hparameters

/-- What the scopes give once a type is recorded with the innermost class. -/
def recordGiven (type : Option String) :
    List (ScopeKind × Option String) → List (ScopeKind × Option String)
  | [] => []
  | given :: outer =>
      if given.1 = .classBody then (given.1, type.or given.2) :: outer
      else given :: recordGiven type outer

@[simp] theorem recordGiven_none (given : List (ScopeKind × Option String)) :
    recordGiven none given = given := by
  induction given with
  | nil => rfl
  | cons inner outer ih => simp [recordGiven, ih]

/-- Of two records the later counts, where it has a type. -/
theorem recordGiven_recordGiven (later earlier : Option String)
    (given : List (ScopeKind × Option String)) :
    recordGiven later (recordGiven earlier given) = recordGiven (later.or earlier) given := by
  induction given with
  | nil => rfl
  | cons inner outer ih =>
      rw [recordGiven, recordGiven]
      split
      · next hclass => rw [recordGiven, if_pos hclass, Option.or_assoc]
      · next hclass => rw [recordGiven, if_neg hclass, ih]

theorem recordGiven_of_no_class (type : Option String) {given : List (ScopeKind × Option String)}
    (hnone : ∀ entry ∈ given, entry.1 ≠ .classBody) : recordGiven type given = given := by
  induction given with
  | nil => rfl
  | cons inner outer ih =>
      obtain ⟨hinner, houter⟩ := List.forall_mem_cons.mp hnone
      rw [recordGiven, if_neg hinner, ih houter]

/-- The type of a name that a function records with the class around it. -/
def recordedBy? (imports : Imports) (name : String) (tree : SyntaxTree) : Option String :=
  if tree.kind = .functionDefinition ∧ isAttributeKey name then scopeType? imports name tree
  else none

theorem get?_filter_isAttributeKey (types : Types) (name : String) :
    NameMap.get? (types.filter fun entry => isAttributeKey entry.1) name =
      if isAttributeKey name then types.get? name else none := by
  induction types with
  | nil => simp
  | cons entry rest ih =>
      rw [List.filter_cons, NameMap.get?_cons]
      by_cases hname : entry.1 = name
      · subst hname
        cases hkey : isAttributeKey entry.1 <;> simp_all [NameMap.get?_cons]
      · cases isAttributeKey entry.1 <;> simp [NameMap.get?_cons, hname, ih]

theorem map_gives_recordAttributes {types : Types} (hsorted : (types.map Prod.fst).Pairwise (· < ·))
    (name : String) (scopes : List Scope) :
    (recordAttributes types scopes).map (Scope.gives name) =
      recordGiven (if isAttributeKey name then types.get? name else none)
        (scopes.map (Scope.gives name)) := by
  induction scopes with
  | nil => rfl
  | cons scope outer ih =>
      have hattributes : ((types.filter fun entry => isAttributeKey entry.1).map Prod.fst).Pairwise
          (· < ·) := hsorted.sublist (List.filter_sublist.map Prod.fst)
      rw [recordAttributes, List.map_cons, recordGiven]
      split
      · next hclass =>
          have hgives : (Scope.gives name scope).1 = .classBody := hclass
          rw [List.map_cons, if_pos hgives, Scope.gives,
            NameMap.get?_insertAll_of_sorted _ hattributes, get?_filter_isAttributeKey]
          rfl
      · next hclass =>
          have hgives : (Scope.gives name scope).1 ≠ .classBody := hclass
          rw [List.map_cons, if_neg hgives, ih]

theorem map_gives_enterFunction (name : String) (context : Context) {function : SyntaxTree}
    (hkind : function.kind = .functionDefinition) :
    (context.enterFunction function).scopes.map (Scope.gives name) =
      treeGives context.file.imports name function ::
        recordGiven (recordedBy? context.file.imports name function)
          (context.scopes.map (Scope.gives name)) := by
  rw [Context.enterFunction, List.map_cons,
    map_gives_recordAttributes (sorted_functionTypes _ function), Scope.gives,
    get?_functionTypes _ hkind, treeGives, treeScopeKind, hkind, recordedBy?, hkind]
  simp only [true_and]

theorem map_gives_enterClass (name : String) (context : Context) {definition : SyntaxTree}
    (hkind : definition.kind = .classDefinition) :
    (context.enterClass definition).scopes.map (Scope.gives name) =
      treeGives context.file.imports name definition :: context.scopes.map (Scope.gives name) := by
  rw [Context.enterClass, List.map_cons, Scope.gives, treeGives, treeScopeKind, scopeType?, hkind]
  cases definition.part? .body with
  | none => rfl
  | some body =>
      dsimp only [Option.bind_some]
      rw [get?_assignedTypes]

theorem map_gives_exit {name : String} {context : Context} {inner : ScopeKind × Option String}
    {outer : List (ScopeKind × Option String)} (hopen : outer ≠ [])
    (hgives : context.scopes.map (Scope.gives name) = inner :: outer) :
    context.exit.scopes.map (Scope.gives name) = outer := by
  unfold Context.exit
  split
  · next first second rest hscopes =>
      rw [hscopes] at hgives
      exact (List.cons_eq_cons.mp hgives).2
  · next hfew =>
      cases hscopes : context.scopes with
      | nil => simp [hscopes] at hgives
      | cons first rest =>
          rw [hscopes, List.map_cons, List.cons_eq_cons] at hgives
          cases rest with
          | nil => exact absurd hgives.2.symm hopen
          | cons second rest => exact absurd hscopes (hfew first second rest)

end Names

end CodeGraph
