import CodeGraph.Proofs.Chunk.Places

namespace CodeGraph

open Syntax Names

/-! Chunks share out the calls of a file: a call counts once in the file, its functions and its
classes, and once more in a method. -/

/-! Definitions of a grammatical tree -/

theorem grammatical_of_definitionOf? {statement definition : SyntaxTree}
    (hstatement : statement.Grammatical) (hdefinition : definitionOf? statement = some definition) :
    definition.Grammatical := by
  unfold definitionOf? at hdefinition
  split at hdefinition
  · cases hdefinition
    exact hstatement
  · cases hdefinition
    exact hstatement
  · exact hstatement.child (List.mem_of_find?_eq_some hdefinition)
  · cases hdefinition

theorem isDefinition_of_definitionOf? {statement definition : SyntaxTree}
    (hstatement : statement.Grammatical) (hdefinition : definitionOf? statement = some definition) :
    definition.kind.isDefinition = true := by
  have hformed := hstatement.formed
  unfold definitionOf? at hdefinition
  split at hdefinition
  · next hkind =>
      cases hdefinition
      rw [hkind]
      rfl
  · next hkind =>
      cases hdefinition
      rw [hkind]
      rfl
  · next hkind =>
      rw [SyntaxTree.Formed, hkind] at hformed
      obtain ⟨⟨other, hother, hkind⟩, -⟩ := hformed
      rw [hdefinition] at hother
      cases hother
      exact hkind
  · cases hdefinition

theorem exists_name_of_isDefinition {definition : SyntaxTree} (hdefinition : definition.Grammatical)
    (hkind : definition.kind.isDefinition = true) : ∃ name, definition.part? .name = some name :=
  (hdefinition.formed.exists_name hkind).imp fun _ hname => hname.1

/-- A statement that introduces a definition introduces a function or a class with a name. -/
theorem function_or_class_of_definitionOf? {statement definition : SyntaxTree}
    (hstatement : statement.Grammatical) (hdefinition : definitionOf? statement = some definition) :
    ∃ name, definition.part? .name = some name ∧
      (definition.kind = .functionDefinition ∨ definition.kind = .classDefinition) := by
  have hkind := isDefinition_of_definitionOf? hstatement hdefinition
  obtain ⟨name, hname⟩ := exists_name_of_isDefinition
    (grammatical_of_definitionOf? hstatement hdefinition) hkind
  refine ⟨name, hname, ?_⟩
  unfold Kind.isDefinition at hkind
  split at hkind
  · next hfunction => exact .inl hfunction
  · next hclass => exact .inr hclass
  · cases hkind

theorem isFileLevel_of_call {statement call : SyntaxTree} (hstatement : statement.Grammatical)
    (hnone : definitionOf? statement = none) {site : List Nat}
    (hcall : statement.at? site = some call) (hkind : call.kind = .call) :
    Chunk.isFileLevel statement = true := by
  have htrivia : statement.kind.isTrivia = false := by
    refine Bool.eq_false_iff.mpr fun htrivia => ?_
    have hbelow := SyntaxTree.isTrivia_of_at? hstatement htrivia hcall
    rw [hkind] at hbelow
    cases hbelow
  have hnamed : statement.kind.isNamed = true := by
    unfold Kind.isNamed
    split
    · next htoken => simp [htoken] at htrivia
    · rfl
  have hcomment : statement.kind ≠ .comment := by
    intro hcomment
    simp [hcomment] at htrivia
  simp [Chunk.isFileLevel, hnone, hnamed, hcomment]

/-! What the walk over a file passes over -/

namespace Reference

theorem isSkipped_of_definitionOf? {statement definition : SyntaxTree}
    (hdefinition : definitionOf? statement = some definition) {origin : Origin}
    (horigin : origin.kind = .fileLevel) : isSkipped origin 1 statement.kind = true := by
  unfold definitionOf? at hdefinition
  split at hdefinition
  · next hkind => simp [hkind, isSkipped, horigin]
  · next hkind => simp [hkind, isSkipped, horigin]
  · next hkind => simp [hkind, isSkipped, horigin]
  · cases hdefinition

theorem isSkipped_of_no_definition {statement : SyntaxTree} (hstatement : statement.Grammatical)
    (hnone : definitionOf? statement = none) (origin : Origin) (depth : Nat) :
    isSkipped origin depth statement.kind = (statement.kind == .decorator) := by
  have hformed := hstatement.formed
  rw [SyntaxTree.Formed] at hformed
  unfold isSkipped
  split
  · next hkind => simp [hkind]
  · next hkind => simp [definitionOf?, hkind] at hnone
  · next hkind => simp [definitionOf?, hkind] at hnone
  · next hkind =>
      rw [hkind] at hformed
      obtain ⟨⟨definition, hdefinition, -⟩, -⟩ := hformed
      simp [definitionOf?, hkind, hdefinition] at hnone
  · next hdecorator _ _ _ => simpa using hdecorator

/-- The walk over a file reaches a site below a statement, unless the statement is a definition or
the site is in a decorator. -/
theorem isPassedOver_root {root statement : SyntaxTree} (hroot : root.kind = .root)
    (hstatement : statement.Grammatical) {index : Nat}
    (hchild : root.children[index]? = some statement) {origin : Origin}
    (horigin : origin.kind = .fileLevel) (rest : List Nat) :
    isPassedOver origin 0 root (index :: rest) =
      ((definitionOf? statement).isSome || statement.isWithin .decorator rest) := by
  have hstep : isPassedOver origin 0 root (index :: rest) =
      isPassedOver origin 1 statement rest := by
    rw [isPassedOver, hchild, hroot]
    rfl
  rw [hstep]
  cases hdefinition : definitionOf? statement with
  | some definition =>
      have hskipped := isSkipped_of_definitionOf? hdefinition horigin
      cases rest with
      | nil => simpa [isPassedOver] using hskipped
      | cons position rest => simp [isPassedOver, hskipped]
  | none =>
      have hskipped := isSkipped_of_no_definition hstatement hdefinition origin 1
      cases rest with
      | nil => exact hskipped
      | cons position rest =>
          rw [isPassedOver, SyntaxTree.isWithin, hskipped]
          cases statement.children[position]? with
          | none => rfl
          | some child => exact congrArg _ (isPassedOver_of_below (.inr Nat.one_lt_two) child rest)

end Reference

/-! Calls in the file, its functions and its classes -/

namespace PlacedChunk

theorem callsAt_of_not_fileLevel {tree call : SyntaxTree} (htree : tree.Grammatical)
    {site : List Nat} (hcall : tree.at? site = some call) (hdirect : Reference.IsDirectCall call)
    (text : String) {chunk : Chunk} (hkind : chunk.kind ≠ .fileLevel) :
    callsAt (.ofText text) tree site { place := [], chunk } =
      if tree.isWithin .decorator site then 0 else 1 := by
  rw [callsAt_root, Reference.countCalls_madeIn htree hcall hdirect,
    Reference.isPassedOver_of_below (.inl hkind)]

end PlacedChunk

namespace Chunk

open PlacedChunk

section

variable {call : SyntaxTree} (hdirect : Reference.IsDirectCall call) (text file path : String)

include hdirect

theorem total_others_placedStatement {statement : SyntaxTree} (hstatement : statement.Grammatical)
    {rest : List Nat} (hcall : statement.at? rest = some call) :
    total (· != .method) (.ofText text) statement rest (placedStatement file path statement) =
      if (definitionOf? statement).isSome && !statement.isWithin .decorator rest then 1 else 0 := by
  cases hdefinition : definitionOf? statement with
  | none =>
      rw [placedStatement, hdefinition]
      rfl
  | some definition =>
      obtain ⟨name, hname, hfunction | hclass⟩ :=
        function_or_class_of_definitionOf? hstatement hdefinition
      · rw [placedStatement_of_function file path hdefinition hname hfunction,
          total_cons_of_selected _ _ rfl, total_nil,
          callsAt_of_not_fileLevel hstatement hcall hdirect text]
        · cases statement.isWithin .decorator rest <;> rfl
        · intro hlevel
          cases hlevel
      · have hmethods : total (· != .method) (.ofText text) statement rest
            ((placedMethods file path (name.text,
              (ofDefinition file path .classDef statement name.text none).id) definition).map
                (below (definitionPlace statement))) = 0 := by
          refine total_eq_zero _ _ fun piece hmem hselect => ?_
          obtain ⟨inner, hinner, rfl⟩ := List.mem_map.mp hmem
          rw [below, kind_of_mem_placedMethods hinner] at hselect
          cases hselect
        rw [placedStatement_of_class file path hdefinition hname hclass,
          total_cons_of_selected _ _ rfl, hmethods,
          callsAt_of_not_fileLevel hstatement hcall hdirect text]
        · cases statement.isWithin .decorator rest <;> rfl
        · intro hlevel
          cases hlevel

theorem total_others_fileLevel {root statement : SyntaxTree} (hroot : root.Grammatical)
    (hkind : root.kind = .root) (source : String) {index : Nat} {rest : List Nat}
    (hchild : root.children[index]? = some statement) (hcall : statement.at? rest = some call) :
    total (· != .method) (.ofText text) root (index :: rest)
        (if root.children.any isFileLevel then
          [{ place := [], chunk := ofFileLevel file path source root }]
        else []) =
      if (definitionOf? statement).isNone && !statement.isWithin .decorator rest then 1 else 0 := by
  have hmem := List.mem_of_getElem? hchild
  have hstatement := hroot.child hmem
  have hsite : root.at? (index :: rest) = some call := by
    rw [SyntaxTree.at?_cons, hchild]
    exact hcall
  have hcount : callsAt (.ofText text) root (index :: rest)
      { place := [], chunk := ofFileLevel file path source root } =
        if (definitionOf? statement).isSome || statement.isWithin .decorator rest then 0
        else 1 := by
    rw [callsAt_root, Reference.countCalls_madeIn hroot hsite hdirect,
      Reference.isPassedOver_root hkind hstatement hchild rfl]
  split
  · rw [total_cons_of_selected _ _ rfl, total_nil, hcount]
    cases definitionOf? statement <;> cases statement.isWithin .decorator rest <;> rfl
  · next hany =>
      cases hdefinition : definitionOf? statement with
      | some definition => rfl
      | none =>
          have hlevel := isFileLevel_of_call hstatement hdefinition hcall hdirect.1
          exact absurd (List.any_eq_true.mpr ⟨statement, hmem, hlevel⟩) hany

theorem total_others_placed {root : SyntaxTree} (hroot : root.Grammatical)
    (hkind : root.kind = .root) (source : String) {site : List Nat}
    (hcall : root.at? site = some call) :
    total (· != .method) (.ofText text) root site (placed file path source root) =
      if root.isWithin .decorator site then 0 else 1 := by
  cases site with
  | nil =>
      cases hcall
      rw [hdirect.1] at hkind
      cases hkind
  | cons index rest =>
      rw [SyntaxTree.at?_cons] at hcall
      obtain ⟨statement, hchild, hbelow⟩ := Option.bind_eq_some_iff.mp hcall
      have hstatement := hroot.child (List.mem_of_getElem? hchild)
      have hwithin : root.isWithin .decorator (index :: rest) =
          statement.isWithin .decorator rest :=
        SyntaxTree.isWithin_child (by rw [hkind]; decide) hchild rest
      rw [placed, total_append, total_children _ _ hchild, hwithin,
        total_others_fileLevel hdirect text file path hroot hkind source hchild hbelow,
        total_others_placedStatement hdirect text file path hstatement hbelow]
      cases definitionOf? statement <;> cases statement.isWithin .decorator rest <;> rfl

end

end Chunk

/-! Calls in methods -/

/-- A member of a class on the top level of a file, with the way to it. -/
structure ClassMember (root : SyntaxTree) where
  index : Nat
  statement : SyntaxTree
  definition : SyntaxTree
  body : SyntaxTree
  position : Nat
  tree : SyntaxTree
  statement_eq : root.children[index]? = some statement
  definition_eq : definitionOf? statement = some definition
  isClass : definition.kind = .classDefinition
  body_eq : definition.part? .body = some body
  tree_eq : body.children[position]? = some tree

namespace ClassMember

variable {root : SyntaxTree} (member : ClassMember root)

/-- The address in the file of a site below the member. -/
def site (rest : List Nat) : List Nat :=
  member.index :: (definitionPlace member.statement ++
    (member.definition.placeOf .body ++ member.position :: rest))

/-- The address below the statement of the class of a site below the member. -/
def inside (rest : List Nat) : List Nat :=
  definitionPlace member.statement ++ (member.definition.placeOf .body ++ member.position :: rest)

theorem at?_inside (rest : List Nat) :
    member.statement.at? (member.inside rest) = member.tree.at? rest := by
  rw [inside, SyntaxTree.at?_append, at?_definitionPlace member.definition_eq]
  change member.definition.at? _ = _
  rw [SyntaxTree.at?_append, SyntaxTree.at?_placeOf member.body_eq]
  change member.body.at? _ = _
  rw [SyntaxTree.at?_cons, member.tree_eq]
  rfl

theorem at?_site (rest : List Nat) : root.at? (member.site rest) = member.tree.at? rest := by
  rw [site, SyntaxTree.at?_cons, member.statement_eq]
  exact member.at?_inside rest

section

variable (hroot : root.Grammatical)

include hroot

theorem grammatical_definition : member.definition.Grammatical :=
  grammatical_of_definitionOf? (hroot.child (List.mem_of_getElem? member.statement_eq))
    member.definition_eq

theorem kind_body : member.body.kind = .block :=
  (member.grammatical_definition hroot).formed.kind_body (by rw [member.isClass]; rfl)
    member.body_eq

theorem grammatical_tree : member.tree.Grammatical :=
  ((member.grammatical_definition hroot).child (List.mem_of_find?_eq_some member.body_eq)).child
    (List.mem_of_getElem? member.tree_eq)

theorem isWithin_inside (rest : List Nat) :
    member.statement.isWithin .decorator (member.inside rest) =
      member.tree.isWithin .decorator rest := by
  rw [inside, isWithin_definitionPlace member.definition_eq,
    SyntaxTree.isWithin_placeOf (by rw [member.isClass]; decide) member.body_eq,
    SyntaxTree.isWithin_child (by rw [member.kind_body hroot]; decide) member.tree_eq]

theorem isWithin_site (hkind : root.kind = .root) (rest : List Nat) :
    root.isWithin .decorator (member.site rest) = member.tree.isWithin .decorator rest := by
  rw [site, SyntaxTree.isWithin_child (by rw [hkind]; decide) member.statement_eq]
  exact member.isWithin_inside hroot rest

end

end ClassMember

/-- The site lies in a direct method of a class on the top level. -/
def InMethod (root : SyntaxTree) (site : List Nat) : Prop :=
  ∃ (member : ClassMember root) (rest : List Nat) (method : SyntaxTree),
    site = member.site rest ∧ definitionOf? member.tree = some method ∧
      method.kind = .functionDefinition

namespace Chunk

open PlacedChunk

variable (context : FileContext) (file path : String)

theorem total_methods_placed {root statement : SyntaxTree} {index : Nat}
    (hchild : root.children[index]? = some statement) (source : String) (rest : List Nat) :
    total (· == .method) context root (index :: rest) (placed file path source root) =
      total (· == .method) context statement rest (placedStatement file path statement) := by
  rw [placed, total_append, total_children _ _ hchild]
  split
  · rw [total_cons_of_not_selected _ _ rfl, total_nil, Nat.zero_add]
  · rw [total_nil, Nat.zero_add]

theorem total_methods_of_class {statement definition name : SyntaxTree}
    (hdefinition : definitionOf? statement = some definition)
    (hclass : definition.kind = .classDefinition) (hname : definition.part? .name = some name)
    (rest : List Nat) :
    total (· == .method) context statement rest (placedStatement file path statement) =
      total (· == .method) context statement rest
        ((placedMethods file path
          (name.text, (ofDefinition file path .classDef statement name.text none).id)
          definition).map (below (definitionPlace statement))) := by
  rw [placedStatement_of_class file path hdefinition hname hclass,
    total_cons_of_not_selected _ _ rfl]

theorem total_placedMethods {definition body member : SyntaxTree}
    (hbody : definition.part? .body = some body) {position : Nat}
    (hmember : body.children[position]? = some member) (parent : String × String)
    (rest : List Nat) :
    total (· == .method) context definition (definition.placeOf .body ++ position :: rest)
        (placedMethods file path parent definition) =
      total (· == .method) context member rest (placedMethod file path parent member) := by
  rw [placedMethods, hbody]
  dsimp only
  rw [total_below _ _ (SyntaxTree.at?_placeOf hbody), total_children _ _ hmember]

theorem total_methods_of_member {root : SyntaxTree} (hroot : root.Grammatical)
    (member : ClassMember root) (rest : List Nat) (source : String) :
    ∃ parent, total (· == .method) context root (member.site rest) (placed file path source root) =
      total (· == .method) context member.tree rest
        (placedMethod file path parent member.tree) := by
  obtain ⟨name, hname⟩ := exists_name_of_isDefinition (member.grammatical_definition hroot)
    (by rw [member.isClass]; rfl)
  refine ⟨(name.text, (ofDefinition file path .classDef member.statement name.text none).id), ?_⟩
  rw [ClassMember.site, total_methods_placed context file path member.statement_eq,
    total_methods_of_class context file path member.definition_eq member.isClass hname,
    total_below _ _ (at?_definitionPlace member.definition_eq),
    total_placedMethods context file path member.body_eq member.tree_eq]

/-- A call in a direct method of a class counts in the chunk of the method. -/
theorem total_methods_of_inMethod {root call : SyntaxTree} (hroot : root.Grammatical)
    (hkind : root.kind = .root) {site : List Nat} (hcall : root.at? site = some call)
    (hdirect : Reference.IsDirectCall call) (hmethod : InMethod root site) (text source : String) :
    total (· == .method) (.ofText text) root site (placed file path source root) =
      if root.isWithin .decorator site then 0 else 1 := by
  obtain ⟨member, rest, method, rfl, hdefinition, hfunction⟩ := hmethod
  obtain ⟨parent, htotal⟩ :=
    total_methods_of_member (.ofText text) file path hroot member rest source
  have htree := member.grammatical_tree hroot
  obtain ⟨name, hname⟩ := exists_name_of_isDefinition
    (grammatical_of_definitionOf? htree hdefinition) (by rw [hfunction]; rfl)
  have hchunk : methodOf? file path parent member.tree =
      some (ofDefinition file path .method member.tree name.text (some parent)) :=
    methodOf?_eq_some_iff.mpr ⟨method, name, hdefinition, hfunction, hname, rfl⟩
  rw [member.at?_site] at hcall
  rw [htotal, member.isWithin_site hroot hkind, placedMethod, hchunk, Option.toList_some,
    List.map_singleton, total_cons_of_selected _ _ rfl, total_nil,
    callsAt_of_not_fileLevel htree hcall hdirect text]
  · rfl
  · intro hlevel
    cases hlevel

theorem exists_class_of_total {statement : SyntaxTree} (hstatement : statement.Grammatical)
    {rest : List Nat}
    (htotal : total (· == .method) context statement rest
      (placedStatement file path statement) ≠ 0) :
    ∃ definition inner parent, definitionOf? statement = some definition ∧
      definition.kind = .classDefinition ∧ rest = definitionPlace statement ++ inner ∧
      total (· == .method) context definition inner
        (placedMethods file path parent definition) ≠ 0 := by
  cases hdefinition : definitionOf? statement with
  | none =>
      rw [placedStatement, hdefinition] at htotal
      exact absurd rfl htotal
  | some definition =>
      obtain ⟨name, hname, hfunction | hclass⟩ :=
        function_or_class_of_definitionOf? hstatement hdefinition
      · rw [placedStatement_of_function file path hdefinition hname hfunction,
          total_cons_of_not_selected _ _ rfl] at htotal
        exact absurd rfl htotal
      · rw [total_methods_of_class context file path hdefinition hclass hname] at htotal
        cases hsite : siteBelow? (definitionPlace statement) rest with
        | none =>
            rw [total_below_of_none _ _ hsite] at htotal
            exact absurd rfl htotal
        | some inner =>
            obtain rfl := siteBelow?_eq_some_iff.mp hsite
            rw [total_below _ _ (at?_definitionPlace hdefinition)] at htotal
            exact ⟨definition, inner, _, rfl, hclass, rfl, htotal⟩

theorem exists_member_of_total {definition call : SyntaxTree}
    (hdefinition : definition.Grammatical) (hclass : definition.kind = .classDefinition)
    {inner : List Nat} (hcall : definition.at? inner = some call) (hkind : call.kind = .call)
    {parent : String × String}
    (htotal : total (· == .method) context definition inner
      (placedMethods file path parent definition) ≠ 0) :
    ∃ body position member rest, definition.part? .body = some body ∧
      body.children[position]? = some member ∧
      inner = definition.placeOf .body ++ position :: rest ∧
      total (· == .method) context member rest (placedMethod file path parent member) ≠ 0 := by
  cases hbody : definition.part? .body with
  | none =>
      rw [placedMethods, hbody] at htotal
      exact absurd rfl htotal
  | some body =>
      have hplace := SyntaxTree.at?_placeOf hbody
      cases hsite : siteBelow? (definition.placeOf .body) inner with
      | none =>
          rw [placedMethods, hbody] at htotal
          dsimp only at htotal
          rw [total_below_of_none _ _ hsite] at htotal
          exact absurd rfl htotal
      | some rest =>
          obtain rfl := siteBelow?_eq_some_iff.mp hsite
          rw [SyntaxTree.at?_append, hplace] at hcall
          cases rest with
          | nil =>
              -- the body of a class is no call
              cases hcall
              rw [hdefinition.formed.kind_body (by rw [hclass]; rfl) hbody] at hkind
              cases hkind
          | cons position rest =>
              have hbelow : body.at? (position :: rest) = some call := hcall
              rw [SyntaxTree.at?_cons] at hbelow
              obtain ⟨member, hmember, -⟩ := Option.bind_eq_some_iff.mp hbelow
              rw [total_placedMethods context file path hbody hmember] at htotal
              exact ⟨body, position, member, rest, rfl, hmember, rfl, htotal⟩

theorem exists_method_of_total {member : SyntaxTree} {rest : List Nat} {parent : String × String}
    (htotal : total (· == .method) context member rest
      (placedMethod file path parent member) ≠ 0) :
    ∃ method, definitionOf? member = some method ∧ method.kind = .functionDefinition := by
  cases hmethod : methodOf? file path parent member with
  | none =>
      rw [placedMethod, hmethod] at htotal
      exact absurd rfl htotal
  | some chunk =>
      obtain ⟨method, name, hdefinition, hfunction, -⟩ := methodOf?_eq_some_iff.mp hmethod
      exact ⟨method, hdefinition, hfunction⟩

/-- No other call counts in the chunk of a method. -/
theorem inMethod_of_total_methods {root call : SyntaxTree} (hroot : root.Grammatical)
    (hkind : root.kind = .root) {site : List Nat} (hcall : root.at? site = some call)
    (hdirect : Reference.IsDirectCall call) (source : String)
    (htotal : total (· == .method) context root site (placed file path source root) ≠ 0) :
    InMethod root site := by
  cases site with
  | nil =>
      cases hcall
      rw [hdirect.1] at hkind
      cases hkind
  | cons index rest =>
      rw [SyntaxTree.at?_cons] at hcall
      obtain ⟨statement, hchild, hbelow⟩ := Option.bind_eq_some_iff.mp hcall
      have hstatement := hroot.child (List.mem_of_getElem? hchild)
      rw [total_methods_placed context file path hchild] at htotal
      obtain ⟨definition, inner, parent, hdefinition, hclass, rfl, hmethods⟩ :=
        exists_class_of_total context file path hstatement htotal
      rw [SyntaxTree.at?_append, at?_definitionPlace hdefinition] at hbelow
      obtain ⟨body, position, tree, rest, hbody, htree, rfl, hmember⟩ :=
        exists_member_of_total context file path
          (grammatical_of_definitionOf? hstatement hdefinition) hclass hbelow hdirect.1 hmethods
      obtain ⟨method, hmethod, hfunction⟩ := exists_method_of_total context file path hmember
      let member : ClassMember root :=
        { index, statement, definition, body, position, tree
          statement_eq := hchild, definition_eq := hdefinition, isClass := hclass
          body_eq := hbody, tree_eq := htree }
      exact ⟨member, rest, method, rfl, hmethod, hfunction⟩

/-! Decorators -/

/-- Nothing in a decorator counts as a call. -/
def LeavesDecorators (root : SyntaxTree) (pieces : List PlacedChunk) : Prop :=
  ∀ site, root.isWithin .decorator site = true →
    ∀ piece ∈ pieces, callsAt context root site piece = 0

theorem leavesDecorators_nil (root : SyntaxTree) : LeavesDecorators context root [] := by
  intro site _ piece hmem
  cases hmem

theorem leavesDecorators_own (tree : SyntaxTree) (chunk : Chunk) :
    LeavesDecorators context tree [{ place := [], chunk }] := by
  intro site hwithin piece hmem
  cases List.mem_singleton.mp hmem
  rw [callsAt_root, Reference.madeIn, Reference.referencesAt_of_isWithin _ _ _ _ hwithin]
  rfl

theorem leavesDecorators_append {root : SyntaxTree} {first second : List PlacedChunk}
    (hfirst : LeavesDecorators context root first)
    (hsecond : LeavesDecorators context root second) :
    LeavesDecorators context root (first ++ second) :=
  fun site hwithin piece hmem =>
    (List.mem_append.mp hmem).elim (hfirst site hwithin piece) (hsecond site hwithin piece)

theorem leavesDecorators_below {root inner : SyntaxTree} {place : List Nat}
    (hplace : root.at? place = some inner)
    (hclear : ∀ rest, root.isWithin .decorator (place ++ rest) = inner.isWithin .decorator rest)
    {pieces : List PlacedChunk} (hpieces : LeavesDecorators context inner pieces) :
    LeavesDecorators context root (pieces.map (below place)) := by
  intro site hwithin piece hmem
  obtain ⟨piece, hpiece, rfl⟩ := List.mem_map.mp hmem
  cases hsite : siteBelow? place site with
  | none => exact callsAt_below_of_none hsite context root piece
  | some rest =>
      obtain rfl := siteBelow?_eq_some_iff.mp hsite
      rw [hclear] at hwithin
      rw [callsAt_below hplace]
      exact hpieces rest hwithin piece hpiece

theorem leavesDecorators_spread {root : SyntaxTree} (hkind : root.kind ≠ .decorator)
    {pieces : SyntaxTree → List PlacedChunk}
    (hpieces : ∀ tree ∈ root.children, LeavesDecorators context tree (pieces tree)) :
    LeavesDecorators context root (spread pieces 0 root.children) := by
  intro site hwithin piece hmem
  obtain ⟨index, tree, inner, hchild, hinner, rfl⟩ := exists_of_mem_spread hmem
  have hplace : root.at? [index] = some tree := by
    rw [SyntaxTree.at?_cons, hchild]
    rfl
  rw [Nat.zero_add]
  exact leavesDecorators_below context hplace (SyntaxTree.isWithin_child hkind hchild)
    (hpieces tree (List.mem_of_getElem? hchild)) site hwithin _ (List.mem_map_of_mem hinner)

theorem leavesDecorators_placedMethod (parent : String × String) (member : SyntaxTree) :
    LeavesDecorators context member (placedMethod file path parent member) := by
  unfold placedMethod
  cases methodOf? file path parent member with
  | none => exact leavesDecorators_nil context member
  | some chunk => exact leavesDecorators_own context member chunk

theorem leavesDecorators_placedMethods {definition : SyntaxTree}
    (hdefinition : definition.Grammatical) (hclass : definition.kind = .classDefinition)
    (parent : String × String) :
    LeavesDecorators context definition (placedMethods file path parent definition) := by
  unfold placedMethods
  split
  · exact leavesDecorators_nil context definition
  · next body hbody =>
      have hblock := hdefinition.formed.kind_body (by rw [hclass]; rfl) hbody
      refine leavesDecorators_below context (SyntaxTree.at?_placeOf hbody)
        (SyntaxTree.isWithin_placeOf (by rw [hclass]; decide) hbody) ?_
      exact leavesDecorators_spread context (by rw [hblock]; decide)
        fun tree _ => leavesDecorators_placedMethod context file path parent tree

theorem leavesDecorators_placedStatement {statement : SyntaxTree}
    (hstatement : statement.Grammatical) :
    LeavesDecorators context statement (placedStatement file path statement) := by
  cases hdefinition : definitionOf? statement with
  | none =>
      rw [placedStatement, hdefinition]
      exact leavesDecorators_nil context statement
  | some definition =>
      obtain ⟨name, hname, hfunction | hclass⟩ :=
        function_or_class_of_definitionOf? hstatement hdefinition
      · rw [placedStatement_of_function file path hdefinition hname hfunction]
        exact leavesDecorators_own context statement _
      · have hmethods := leavesDecorators_below context (at?_definitionPlace hdefinition)
          (isWithin_definitionPlace hdefinition)
          (leavesDecorators_placedMethods context file path
            (grammatical_of_definitionOf? hstatement hdefinition) hclass
            (name.text, (ofDefinition file path .classDef statement name.text none).id))
        rw [placedStatement_of_class file path hdefinition hname hclass]
        exact leavesDecorators_append context (leavesDecorators_own context statement _) hmethods

/-- No chunk has a call from a decorator of the file. -/
theorem leavesDecorators_placed {root : SyntaxTree} (hroot : root.Grammatical)
    (hkind : root.kind = .root) (source : String) :
    LeavesDecorators context root (placed file path source root) := by
  refine leavesDecorators_append context ?_ (leavesDecorators_spread context
    (by rw [hkind]; decide)
    fun statement hmem => leavesDecorators_placedStatement context file path (hroot.child hmem))
  split
  · exact leavesDecorators_own context root _
  · exact leavesDecorators_nil context root

/-- Every direct call of a file counts once in the file, its functions and its classes, and once
more in a method if it lies in one.  Only a call in a decorator does not count at all. -/
theorem placed_calls_once {root : SyntaxTree} (hroot : root.IsModule)
    (file path source text : String) (site : List Nat) :
    let pieces := placed file path source root
    pieces.map PlacedChunk.chunk = ofTree file path source root ∧
      (∀ piece ∈ pieces, piece = { place := [], chunk := ofFileLevel file path source root } ∨
        IsPlacedIn root piece) ∧
      (∀ piece ∈ pieces, ∀ tree, root.at? piece.place = some tree →
        Reference.ofTree piece.chunk (.ofText text) tree =
          tree.addresses.flatMap (Reference.madeIn piece.chunk (.ofText text) tree)) ∧
      (root.isWithin .decorator site = true →
        ∀ piece ∈ pieces, callsAt (.ofText text) root site piece = 0) ∧
      (∀ call, root.at? site = some call → Reference.IsDirectCall call →
        root.isWithin .decorator site = false →
          total (· != .method) (.ofText text) root site pieces = 1 ∧
          (InMethod root site → total (· == .method) (.ofText text) root site pieces = 1) ∧
          (¬ InMethod root site →
            total (· == .method) (.ofText text) root site pieces = 0)) := by
  obtain ⟨hroot, hkind⟩ := hroot
  refine ⟨chunks_placed file path source root, fun _ => isPlacedIn_of_mem_placed,
    fun piece _ tree _ => Reference.ofTree_eq_flatMap piece.chunk (.ofText text) tree,
    leavesDecorators_placed (.ofText text) file path hroot hkind source site,
    fun call hcall hdirect hwithin => ⟨?_, fun hmethod => ?_, fun hmethod => ?_⟩⟩
  · rw [total_others_placed hdirect text file path hroot hkind source hcall, hwithin]
    rfl
  · rw [total_methods_of_inMethod file path hroot hkind hcall hdirect hmethod text source, hwithin]
    rfl
  · exact Classical.byContradiction fun htotal => hmethod
      (inMethod_of_total_methods (.ofText text) file path hroot hkind hcall hdirect source htotal)

/-- A call in a decorated method counts in the class and in the method, and the call in the
decorator of the class counts nowhere. -/
theorem placed_calls_once_in_method :
    let source := "@d()\nclass A:\n    @e\n    def m(self):\n        f()\n"
    let site := [0, 1, 3, 0, 1, 4, 0, 0]
    ∃ root call, parse? source = some root ∧ root.at? site = some call ∧
      Reference.IsDirectCall call ∧ InMethod root site ∧
      total (· != .method) (.ofText source) root site (placed "a" "a.py" source root) = 1 ∧
      total (· == .method) (.ofText source) root site (placed "a" "a.py" source root) = 1 ∧
      ∀ piece ∈ placed "a" "a.py" source root,
        callsAt (.ofText source) root [0, 0, 1] piece = 0 := by
  intro source site
  have hshape : (do
      let root ← parse? source
      let call ← root.at? site
      let callee ← call.part? .function
      let statement ← root.children[0]?
      let definition ← definitionOf? statement
      let body ← definition.part? .body
      let tree ← body.children[0]?
      let method ← definitionOf? tree
      pure ([call.kind, callee.kind, definition.kind, method.kind],
        [definitionPlace statement, definition.placeOf .body],
        [root.isWithin .decorator site, root.isWithin .decorator [0, 0, 1]])) =
      some ([.call, .identifier, .classDefinition, .functionDefinition], [[1], [3]],
        [false, true]) := by
    decide +kernel
  simp only [Option.bind_eq_bind, Option.bind_eq_some_iff, Option.pure_def, Option.some.injEq,
    Prod.mk.injEq, List.cons.injEq, and_true] at hshape
  obtain ⟨root, hparse, call, hcall, callee, hcallee, statement, hstatement, definition,
    hdefinition, body, hbody, tree, htree, method, hmethod, ⟨hkind, hname, hclass, hfunction⟩,
    ⟨hplace, hblock⟩, hreached, hdecorator⟩ := hshape
  let member : ClassMember root :=
    { index := 0, statement, definition, body, position := 0, tree
      statement_eq := hstatement, definition_eq := hdefinition, isClass := hclass
      body_eq := hbody, tree_eq := htree }
  have hdirect : Reference.IsDirectCall call := ⟨hkind, callee, hcallee, by rw [hname]; decide⟩
  have hsite : site = member.site [1, 4, 0, 0] := by
    rw [ClassMember.site, hplace, hblock]
    rfl
  have hinside : InMethod root site := ⟨member, _, method, hsite, hmethod, hfunction⟩
  have hmodule := isModule_of_parse hparse
  obtain ⟨-, -, -, -, honce⟩ := placed_calls_once hmodule "a" "a.py" source source site
  obtain ⟨-, -, -, hnowhere, -⟩ := placed_calls_once hmodule "a" "a.py" source source [0, 0, 1]
  obtain ⟨hothers, hmethods, -⟩ := honce call hcall hdirect hreached
  exact ⟨root, call, hparse, hcall, hdirect, hinside, hothers, hmethods hinside,
    hnowhere hdecorator⟩

end Chunk

end CodeGraph
