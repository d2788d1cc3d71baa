import CodeGraph.Proofs.Names.Scopes
import CodeGraph.Proofs.Reference.Arrival

namespace CodeGraph

open Syntax Names

/-! The scopes that are open when the walk arrives at a site, read off the tree.  They are those of
the definitions around the site.  A class among them also has what the functions before the site
have recorded with it. -/

namespace Syntax.SyntaxTree

/-- The definitions that hold the site, the innermost first, each with the address of the site
below it. -/
def scopesAround (tree : SyntaxTree) : List Nat → List (SyntaxTree × List Nat)
  | [] => []
  | index :: rest =>
      let inside :=
        match tree.children[index]? with
        | some child => child.scopesAround rest
        | none => []
      if tree.kind.isDefinition then inside ++ [(tree, index :: rest)] else inside

theorem scopesAround_cons {tree child : SyntaxTree} {index : Nat}
    (hchild : tree.children[index]? = some child) (rest : List Nat) :
    tree.scopesAround (index :: rest) =
      child.scopesAround rest ++
        if tree.kind.isDefinition then [(tree, index :: rest)] else [] := by
  rw [scopesAround, hchild]
  split
  · rfl
  · exact (List.append_nil _).symm

theorem map_fst_scopesAround {tree inner : SyntaxTree} {site : List Nat}
    (hinner : tree.at? site = some inner) :
    (tree.scopesAround site).map Prod.fst = tree.definitionsAround site := by
  induction site generalizing tree with
  | nil => rfl
  | cons index rest ih =>
      obtain ⟨child, hchild, hbelow⟩ := exists_child_of_at? hinner
      rw [scopesAround_cons hchild, definitionsAround_cons hchild, List.map_append, ih hbelow]
      split
      · rfl
      · exact List.append_nil _

end Syntax.SyntaxTree

namespace Names

mutual

/-- The type of a name that the functions in a tree record with the class around it.  The function
that is entered last counts. -/
def recordedType? (imports : Imports) (name : String) : SyntaxTree → Option String
  | .node kind role start stop text children =>
      if kind = .decorator ∨ kind = .classDefinition then none
      else
        (recordedTypeOfAll? imports name children).or
          (recordedBy? imports name (.node kind role start stop text children))

def recordedTypeOfAll? (imports : Imports) (name : String) : List SyntaxTree → Option String
  | [] => none
  | tree :: rest => (recordedTypeOfAll? imports name rest).or (recordedType? imports name tree)

end

/-- The type that is recorded, below the class that holds the tree or is the tree, when the walk
arrives at the site. -/
def recordedBefore? (imports : Imports) (name : String) (tree : SyntaxTree) :
    List Nat → Option String
  | [] => none
  | index :: rest =>
      let inside :=
        match tree.children[index]? with
        | some child =>
            if child.kind = Kind.classDefinition then none
            else recordedBefore? imports name child rest
        | none => none
      inside.or
        ((recordedTypeOfAll? imports name (tree.children.take index)).or
          (recordedBy? imports name tree))

/-- The type that a scope around a site gives a name, where the address is that of the site below
the scope. -/
def givenType? (imports : Imports) (name : String) (scope : SyntaxTree × List Nat) :
    Option String :=
  if scope.1.kind = .classDefinition then
    (recordedBefore? imports name scope.1 scope.2).or (scopeType? imports name scope.1)
  else scopeType? imports name scope.1

/-- The scopes that are open at a site of a file, the top level last. -/
def scopesOf (root : SyntaxTree) (site : List Nat) : List (SyntaxTree × List Nat) :=
  root.scopesAround site ++ [(root, site)]

/-- The type that scopes give an attribute.  Classes are searched like the others. -/
def attributeType? (imports : Imports) (name : String) (scopes : List (SyntaxTree × List Nat)) :
    Option String :=
  scopes.findSome? (givenType? imports name)

def scopeGives (imports : Imports) (name : String) (scope : SyntaxTree × List Nat) :
    ScopeKind × Option String :=
  (treeScopeKind scope.1, givenType? imports name scope)

theorem recordedBefore?_cons (imports : Imports) (name : String) {tree child : SyntaxTree}
    {index : Nat} (hchild : tree.children[index]? = some child) (rest : List Nat) :
    recordedBefore? imports name tree (index :: rest) =
      (if child.kind = .classDefinition then none
        else recordedBefore? imports name child rest).or
        ((recordedTypeOfAll? imports name (tree.children.take index)).or
          (recordedBy? imports name tree)) := by
  rw [recordedBefore?, hchild]

theorem recordedBy?_of_ne (imports : Imports) (name : String) {tree : SyntaxTree}
    (hkind : tree.kind ≠ .functionDefinition) : recordedBy? imports name tree = none :=
  if_neg fun hfunction => hkind hfunction.1

/-! Plain names are not recorded. -/

theorem recordedBy?_of_plain (imports : Imports) {name : String}
    (hplain : isAttributeKey name = false) (tree : SyntaxTree) :
    recordedBy? imports name tree = none :=
  if_neg fun hattribute => by simp [hplain] at hattribute

mutual

theorem recordedType?_of_plain (imports : Imports) {name : String}
    (hplain : isAttributeKey name = false) (tree : SyntaxTree) :
    recordedType? imports name tree = none := by
  cases tree with
  | node kind role start stop text children =>
      rw [recordedType?, recordedTypeOfAll?_of_plain imports hplain children,
        recordedBy?_of_plain imports hplain]
      exact ite_self none

theorem recordedTypeOfAll?_of_plain (imports : Imports) {name : String}
    (hplain : isAttributeKey name = false) (trees : List SyntaxTree) :
    recordedTypeOfAll? imports name trees = none := by
  cases trees with
  | nil => rw [recordedTypeOfAll?]
  | cons tree rest =>
      rw [recordedTypeOfAll?, recordedTypeOfAll?_of_plain imports hplain rest,
        recordedType?_of_plain imports hplain tree]
      rfl

end

theorem recordedBefore?_of_plain (imports : Imports) {name : String}
    (hplain : isAttributeKey name = false) (tree : SyntaxTree) (site : List Nat) :
    recordedBefore? imports name tree site = none := by
  induction site generalizing tree with
  | nil => rfl
  | cons index rest ih =>
      rw [recordedBefore?, recordedTypeOfAll?_of_plain imports hplain,
        recordedBy?_of_plain imports hplain]
      split
      · rw [ih]
        simp
      · rfl

theorem scopeGives_of_plain (imports : Imports) {name : String}
    (hplain : isAttributeKey name = false) (scope : SyntaxTree × List Nat) :
    scopeGives imports name scope = treeGives imports name scope.1 := by
  rw [scopeGives, givenType?, recordedBefore?_of_plain imports hplain, Option.none_or, ite_self]
  rfl

end Names

namespace Reference

theorem map_gives_enter (name : String) (state : Walk) (tree : SyntaxTree) :
    (state.enter tree).context.scopes.map (Scope.gives name) =
      (if tree.kind.isDefinition then [treeGives state.context.file.imports name tree] else []) ++
        recordGiven (recordedBy? state.context.file.imports name tree)
          (state.context.scopes.map (Scope.gives name)) := by
  unfold Walk.enter
  split
  · next hkind =>
      rw [recordedBy?_of_ne _ _ (by rw [hkind]; decide), recordGiven_none, hkind]
      exact map_gives_enterClass name state.context hkind
  · next hkind =>
      rw [hkind]
      exact map_gives_enterFunction name state.context hkind
  · next hclass hfunction =>
      have hkind : tree.kind.isDefinition = false := by
        unfold Kind.isDefinition
        split <;> simp_all
      rw [recordedBy?_of_ne _ _ hfunction, recordGiven_none, hkind]
      rfl

/-- Where the walk passes over definitions, no class is open. -/
def NoClassSkipped (origin : Origin) (depth : Nat) (given : List (ScopeKind × Option String)) :
    Prop :=
  origin.kind = .fileLevel → depth ≤ 1 → ∀ entry ∈ given, entry.1 ≠ .classBody

theorem length_recordGiven (type : Option String) (given : List (ScopeKind × Option String)) :
    (recordGiven type given).length = given.length := by
  induction given with
  | nil => rfl
  | cons inner outer ih =>
      rw [recordGiven]
      split
      · rfl
      · rw [List.length_cons, ih, List.length_cons]

theorem recordGiven_of_isSkipped {origin : Origin} {depth : Nat} {tree : SyntaxTree}
    (hskipped : isSkipped origin depth tree.kind = true) {given : List (ScopeKind × Option String)}
    (hclear : NoClassSkipped origin depth given) (imports : Imports) (name : String) :
    recordGiven (recordedType? imports name tree) given = given := by
  by_cases hdecorator : tree.kind = .decorator
  · cases tree with
    | node kind role start stop text children =>
        rw [recordedType?, if_pos (.inl hdecorator), recordGiven_none]
  · have htop : depth = 1 ∧ origin.kind = .fileLevel := by
      unfold isSkipped at hskipped
      split at hskipped <;> simp_all
    exact recordGiven_of_no_class _ (hclear htop.2 htop.1.le)

theorem NoClassSkipped.deeper {origin : Origin} {depth : Nat} (hbelow : 1 ≤ depth)
    (given : List (ScopeKind × Option String)) : NoClassSkipped origin (depth + 1) given :=
  fun _ hdepth => absurd hdepth (by omega)

theorem scopes_enter_ne_nil {state : Walk} (hopen : state.context.scopes ≠ [])
    (tree : SyntaxTree) : (state.enter tree).context.scopes ≠ [] := by
  unfold Walk.enter
  split
  · exact List.cons_ne_nil _ _
  · exact List.cons_ne_nil _ _
  · exact hopen

theorem recordGiven_ne_nil {type : Option String} {given : List (ScopeKind × Option String)}
    (hgiven : given ≠ []) : recordGiven type given ≠ [] := by
  rw [ne_eq, ← List.length_eq_zero_iff, length_recordGiven, List.length_eq_zero_iff]
  exact hgiven

theorem scopes_ne_nil_of_map_gives {name : String} {scopes others : List Scope}
    (hopen : others ≠ []) {type : Option String}
    (hgives : scopes.map (Scope.gives name) = recordGiven type (others.map (Scope.gives name))) :
    scopes ≠ [] := by
  rintro rfl
  exact recordGiven_ne_nil (by simpa using hopen) hgives.symm

theorem map_gives_leave {name : String} {imports : Imports} {tree : SyntaxTree} {state : Walk}
    {type : Option String} {given : List (ScopeKind × Option String)} (hopen : given ≠ [])
    (hgives : state.context.scopes.map (Scope.gives name) =
      recordGiven type ((if tree.kind.isDefinition then [treeGives imports name tree] else []) ++
        recordGiven (recordedBy? imports name tree) given)) :
    (state.leave tree.kind).context.scopes.map (Scope.gives name) =
      if tree.kind = .classDefinition then given
      else recordGiven (type.or (recordedBy? imports name tree)) given := by
  -- a class takes what is recorded inside of it away with its scope
  by_cases hclass : tree.kind = .classDefinition
  · have hkind : (treeGives imports name tree).1 = .classBody :=
      treeScopeKind_eq_classBody.mpr hclass
    have hdefinition : tree.kind.isDefinition = true := by rw [hclass]; rfl
    rw [recordedBy?_of_ne imports name (by rw [hclass]; decide), recordGiven_none,
      if_pos hdefinition, List.singleton_append, recordGiven, if_pos hkind] at hgives
    rw [hclass, if_pos rfl]
    exact map_gives_exit hopen hgives
  · have hkind : (treeGives imports name tree).1 ≠ .classBody :=
      fun hbody => hclass (treeScopeKind_eq_classBody.mp hbody)
    rw [if_neg hclass, ← recordGiven_recordGiven, Walk.leave]
    split
    · next hdefinition =>
        rw [if_pos hdefinition, List.singleton_append, recordGiven, if_neg hkind] at hgives
        exact map_gives_exit (recordGiven_ne_nil (recordGiven_ne_nil hopen)) hgives
    · next hdefinition => rwa [if_neg hdefinition, List.nil_append] at hgives

mutual

/-- A node that is walked over leaves what its functions record, and no scope. -/
theorem map_gives_walk (name : String) (origin : Origin) (current : Option String) {depth : Nat}
    (hbelow : 1 ≤ depth) {state : Walk} (hopen : state.context.scopes ≠ [])
    (hclear : NoClassSkipped origin depth (state.context.scopes.map (Scope.gives name)))
    (tree : SyntaxTree) :
    (walk origin current depth state tree).2.context.scopes.map (Scope.gives name) =
      recordGiven (recordedType? state.context.file.imports name tree)
        (state.context.scopes.map (Scope.gives name)) := by
  cases hskipped : isSkipped origin depth tree.kind with
  | true => rw [walk_of_isSkipped hskipped, recordGiven_of_isSkipped hskipped hclear]
  | false =>
      cases tree with
      | node kind role start stop text children =>
          have hinside := map_gives_walkAll name origin
            (classInside current (.node kind role start stop text children))
            (Nat.le_add_left 1 depth)
            (scopes_enter_ne_nil hopen (.node kind role start stop text children))
            (.deeper hbelow _) children
          rw [map_gives_enter, file_enter] at hinside
          have hdecorator : kind ≠ .decorator := by
            rintro rfl
            cases hskipped
          rw [walk_of_not_isSkipped hskipped]
          refine (map_gives_leave (by simpa using hopen) hinside).trans ?_
          rw [recordedType?, SyntaxTree.kind_node]
          by_cases hclass : kind = .classDefinition <;> simp [hclass, hdecorator]

theorem map_gives_walkAll (name : String) (origin : Origin) (current : Option String)
    {depth : Nat} (hbelow : 1 ≤ depth) {state : Walk} (hopen : state.context.scopes ≠ [])
    (hclear : NoClassSkipped origin depth (state.context.scopes.map (Scope.gives name)))
    (trees : List SyntaxTree) :
    (walkAll origin current depth state trees).2.context.scopes.map (Scope.gives name) =
      recordGiven (recordedTypeOfAll? state.context.file.imports name trees)
        (state.context.scopes.map (Scope.gives name)) := by
  cases trees with
  | nil => rw [walkAll, recordedTypeOfAll?, recordGiven_none]
  | cons tree rest =>
      have hfirst := map_gives_walk name origin current hbelow hopen hclear tree
      have hlater : NoClassSkipped origin depth
          ((walk origin current depth state tree).2.context.scopes.map (Scope.gives name)) := by
        intro hfile hdepth
        rw [hfirst, recordGiven_of_no_class _ (hclear hfile hdepth)]
        exact hclear hfile hdepth
      rw [walkAll_cons, map_gives_walkAll name origin current hbelow
        (scopes_ne_nil_of_map_gives hopen hfirst) hlater rest, hfirst, recordGiven_recordGiven,
        file_walk, recordedTypeOfAll?]

end

/-- What is recorded inside of a tree is recorded with the tree itself, where it is a class, and
else with the class around it. -/
theorem recordGiven_enter {tree child : SyntaxTree} {index : Nat}
    (hchild : tree.children[index]? = some child) (rest : List Nat) (imports : Imports)
    (name : String) (given : List (ScopeKind × Option String)) :
    recordGiven
        ((if child.kind = .classDefinition then none
          else recordedBefore? imports name child rest).or
          (recordedTypeOfAll? imports name (tree.children.take index)))
        ((if tree.kind.isDefinition then [treeGives imports name tree] else []) ++
          recordGiven (recordedBy? imports name tree) given) =
      (if tree.kind.isDefinition then [(tree, index :: rest)] else []).map
          (scopeGives imports name) ++
        recordGiven
          (if tree.kind = .classDefinition then none
            else recordedBefore? imports name tree (index :: rest)) given := by
  by_cases hclass : tree.kind = .classDefinition
  · have hkind : (treeGives imports name tree).1 = .classBody :=
      treeScopeKind_eq_classBody.mpr hclass
    have hdefinition : tree.kind.isDefinition = true := by rw [hclass]; rfl
    have hscope : scopeGives imports name (tree, index :: rest) =
        ((treeGives imports name tree).1,
          (recordedBefore? imports name tree (index :: rest)).or
            (treeGives imports name tree).2) := by
      rw [scopeGives, givenType?, if_pos hclass]
      rfl
    rw [if_pos hdefinition, if_pos hdefinition, if_pos hclass, recordGiven_none,
      recordedBy?_of_ne imports name (by rw [hclass]; decide), recordGiven_none,
      List.singleton_append, recordGiven, if_pos hkind, List.map_singleton, hscope,
      recordedBefore?_cons imports name hchild,
      recordedBy?_of_ne imports name (by rw [hclass]; decide), Option.or_none,
      List.singleton_append]
  · have hkind : (treeGives imports name tree).1 ≠ .classBody :=
      fun hbody => hclass (treeScopeKind_eq_classBody.mp hbody)
    have hscope : scopeGives imports name (tree, index :: rest) = treeGives imports name tree := by
      rw [scopeGives, givenType?, if_neg hclass]
      rfl
    rw [if_neg hclass, recordedBefore?_cons imports name hchild, ← Option.or_assoc]
    generalize (if child.kind = .classDefinition then none
      else recordedBefore? imports name child rest).or
        (recordedTypeOfAll? imports name (tree.children.take index)) = later
    rw [← recordGiven_recordGiven]
    split
    · rw [List.map_singleton, hscope, List.singleton_append, recordGiven, if_neg hkind,
        List.singleton_append]
    · rfl

/-- On the arrival at a site, the scopes around it are open, and what was recorded on the way is
recorded with the innermost class outside of the tree. -/
theorem map_gives_stateAt (name : String) (origin : Origin) (current : Option String)
    (depth : Nat) (state : Walk) (hopen : state.context.scopes ≠ []) {tree inner : SyntaxTree}
    (htop : tree.kind.isDefinition = false ∨ 1 ≤ depth)
    (hclear : NoClassSkipped origin depth (state.context.scopes.map (Scope.gives name)))
    {site : List Nat} (hinner : tree.at? site = some inner) :
    (stateAt origin current depth state tree site).context.scopes.map (Scope.gives name) =
      (tree.scopesAround site).map (scopeGives state.context.file.imports name) ++
        recordGiven
          (if tree.kind = .classDefinition then none
            else recordedBefore? state.context.file.imports name tree site)
          (state.context.scopes.map (Scope.gives name)) := by
  induction site generalizing tree current depth state with
  | nil =>
      rw [stateAt, recordedBefore?, ite_self, recordGiven_none]
      rfl
  | cons index rest ih =>
      obtain ⟨child, hchild, hbelow⟩ := SyntaxTree.exists_child_of_at? hinner
      have hentered : NoClassSkipped origin (depth + 1)
          ((state.enter tree).context.scopes.map (Scope.gives name)) := by
        rcases htop with hplain | hdeep
        · rw [enter_of_not_isDefinition hplain]
          exact fun hfile hdepth => hclear hfile (by omega)
        · exact .deeper hdeep _
      -- what stands before the child is walked over first and records with the same class
      have hopened := scopes_enter_ne_nil hopen tree
      have hbefore := map_gives_walkAll name origin (classInside current tree)
        (Nat.le_add_left 1 depth) hopened hentered (tree.children.take index)
      have harrived : NoClassSkipped origin (depth + 1)
          ((walkAll origin (classInside current tree) (depth + 1) (state.enter tree)
            (tree.children.take index)).2.context.scopes.map (Scope.gives name)) := by
        intro hfile hdepth
        rw [hbefore, recordGiven_of_no_class _ (hentered hfile hdepth)]
        exact hentered hfile hdepth
      rw [stateAt, hchild]
      dsimp only
      rw [ih _ _ _ (scopes_ne_nil_of_map_gives hopened hbefore) (.inr (Nat.le_add_left 1 depth))
        harrived hbelow, file_walkAll, file_enter, hbefore, file_enter, map_gives_enter,
        recordGiven_recordGiven, SyntaxTree.scopesAround_cons hchild, List.map_append,
        List.append_assoc]
      exact congrArg (_ ++ ·) (recordGiven_enter hchild _ _ _ _)

theorem map_gives_stateIn (name : String) (chunk : Chunk) (file : FileContext)
    {root inner : SyntaxTree} (hroot : root.kind = .root) {site : List Nat}
    (hinner : root.at? site = some inner) :
    (stateIn chunk file root site).context.scopes.map (Scope.gives name) =
      (scopesOf root site).map (scopeGives file.imports name) := by
  have htop : (Context.ofTree file root chunk.parentName).scopes.map (Scope.gives name) =
      [scopeGives file.imports name (root, site)] := by
    rw [Context.ofTree, List.map_singleton, Scope.gives, get?_assignedTypes, scopeGives, givenType?,
      if_neg (by rw [hroot]; decide), treeScopeKind, scopeType?, hroot]
  have hkind : ∀ entry ∈ [scopeGives file.imports name (root, site)], entry.1 ≠ .classBody := by
    intro entry hmem
    rw [List.mem_singleton.mp hmem, scopeGives, treeScopeKind, hroot]
    exact ScopeKind.noConfusion
  have hdefinition : root.kind.isDefinition = false := by
    rw [hroot]
    rfl
  have harrival := map_gives_stateAt name (originOf chunk)
    (Context.ofTree file root chunk.parentName).enclosingClass 0
    { context := Context.ofTree file root chunk.parentName,
      signatureDue := chunk.kind == .function || chunk.kind == .method }
    (List.cons_ne_nil _ _) (.inl hdefinition) (fun _ _ => by rw [htop]; exact hkind) hinner
  rw [htop, recordGiven_of_no_class _ hkind] at harrival
  rw [scopesOf, List.map_append, List.map_singleton]
  exact harrival

theorem typeOf?_of_attribute {name : String} (hattribute : isAttributeKey name = true)
    (chunk : Chunk) (file : FileContext) {root inner : SyntaxTree} (hroot : root.kind = .root)
    {site : List Nat} (hinner : root.at? site = some inner) :
    (stateIn chunk file root site).context.typeOf? name =
      attributeType? file.imports name (scopesOf root site) := by
  have hgives := congrArg (List.findSome? Prod.snd)
    (map_gives_stateIn name chunk file hroot hinner)
  rw [List.findSome?_map, List.findSome?_map] at hgives
  rw [Context.typeOf?]
  refine Eq.trans ?_ hgives
  cases (stateIn chunk file root site).context.scopes with
  | nil => rfl
  | cons inner outer =>
      have hvisible : Context.visibleFromInside name = fun _ => true := by
        funext scope
        rw [Context.visibleFromInside, hattribute, Bool.or_true]
      dsimp only
      rw [hvisible, List.filter_true, List.findSome?_cons]
      cases hfound : inner.types.get? name <;> simp [Scope.gives, Function.comp_def, hfound]

end Reference

end CodeGraph
