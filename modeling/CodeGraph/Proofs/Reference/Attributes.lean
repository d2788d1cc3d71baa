import CodeGraph.Proofs.Reference.PlainNames

namespace CodeGraph

open Syntax Names

/-! Methods that are called on attributes such as `self.a`.  Every type that an attribute has is
traced back to the write it comes from, and the class around the write is compared with the class
around the call. -/

namespace Syntax.SyntaxTree

/-- The address, below a node, of the class that the node opens for its children. -/
def ownPlace? (tree : SyntaxTree) : Option (List Nat) :=
  if tree.kind = .classDefinition then some [] else none

/-- The address of the innermost class that holds the site. -/
def classPlace? (tree : SyntaxTree) : List Nat → Option (List Nat)
  | [] => none
  | index :: rest =>
      let inside :=
        match tree.children[index]? with
        | some child => (child.classPlace? rest).map (index :: ·)
        | none => none
      inside.or tree.ownPlace?

theorem ownPlace?_of_ne {tree : SyntaxTree} (hkind : tree.kind ≠ .classDefinition) :
    tree.ownPlace? = none :=
  if_neg hkind

theorem eq_nil_of_ownPlace? {tree : SyntaxTree} {place : List Nat}
    (hplace : tree.ownPlace? = some place) : place = [] := by
  unfold ownPlace? at hplace
  split at hplace <;> cases hplace
  rfl

theorem classPlace?_cons {tree child : SyntaxTree} {index : Nat}
    (hchild : tree.children[index]? = some child) (rest : List Nat) :
    tree.classPlace? (index :: rest) =
      ((child.classPlace? rest).map (index :: ·)).or tree.ownPlace? := by
  rw [classPlace?, hchild]

theorem classPlace?_append {tree inner : SyntaxTree} {place : List Nat}
    (hinner : tree.at? place = some inner) (rest : List Nat) :
    tree.classPlace? (place ++ rest) =
      ((inner.classPlace? rest).map (place ++ ·)).or (tree.classPlace? place) := by
  induction place generalizing tree with
  | nil =>
      cases hinner
      simp [classPlace?]
  | cons index place ih =>
      obtain ⟨child, hchild, hbelow⟩ := exists_child_of_at? hinner
      rw [List.cons_append, classPlace?_cons hchild, classPlace?_cons hchild, ih hbelow,
        Option.map_or, Option.map_map, Option.or_assoc]
      rfl

theorem classPlace?_isPrefix {tree : SyntaxTree} {site place : List Nat}
    (hplace : tree.classPlace? site = some place) :
    place <+: site ∧ place.length < site.length := by
  induction site generalizing tree place with
  | nil => cases hplace
  | cons index rest ih =>
      rw [classPlace?, Option.or_eq_some_iff] at hplace
      rcases hplace with hinside | ⟨-, hhere⟩
      · split at hinside
        · obtain ⟨inner, hinner, rfl⟩ := Option.map_eq_some_iff.mp hinside
          obtain ⟨hbefore, hlength⟩ := ih hinner
          exact ⟨List.cons_prefix_cons.mpr ⟨rfl, hbefore⟩, Nat.succ_lt_succ hlength⟩
        · cases hinside
      · rw [eq_nil_of_ownPlace? hhere]
        exact ⟨List.nil_prefix, Nat.succ_pos _⟩

end Syntax.SyntaxTree

namespace Names

/-- The node at the place writes the type to the name. -/
def IsWrittenAt (imports : Imports) (name type : String) (tree : SyntaxTree) (place : List Nat) :
    Prop :=
  (tree.at? place).bind (write? imports) = some (name, type)

theorem IsWrittenAt.below {imports : Imports} {name type : String} {tree inner : SyntaxTree}
    {place rest : List Nat} (hinner : tree.at? place = some inner)
    (hwritten : IsWrittenAt imports name type inner rest) :
    IsWrittenAt imports name type tree (place ++ rest) := by
  rw [IsWrittenAt, SyntaxTree.at?_append, hinner]
  exact hwritten

/-- The tree writes the type to the name where no class but the tree itself is around the write. -/
def WritesOwn (imports : Imports) (name type : String) (tree : SyntaxTree) : Prop :=
  ∃ place, IsWrittenAt imports name type tree place ∧ tree.classPlace? place = tree.ownPlace?

theorem WritesOwn.of_child {imports : Imports} {name type : String} {tree child : SyntaxTree}
    {index : Nat} (hchild : tree.children[index]? = some child)
    (hkind : child.kind ≠ .classDefinition) (hwrites : WritesOwn imports name type child) :
    WritesOwn imports name type tree := by
  obtain ⟨place, hwritten, hplace⟩ := hwrites
  have hat : tree.at? [index] = some child := by
    rw [SyntaxTree.at?_cons, hchild]
    rfl
  refine ⟨[index] ++ place, hwritten.below hat, ?_⟩
  rw [List.singleton_append, SyntaxTree.classPlace?_cons hchild, hplace,
    SyntaxTree.ownPlace?_of_ne hkind]
  rfl

mutual

theorem exists_of_mem_ownNodes {node tree : SyntaxTree} (hmem : node ∈ ownNodes tree) :
    ∃ rest, tree.at? rest = some node ∧ tree.classPlace? rest = none := by
  cases tree with
  | node kind role start stop text children =>
      rw [ownNodes] at hmem
      split at hmem
      · cases hmem
      · next hopen =>
          -- classes hide their nodes, so none is passed on the way
          have hkind : kind ≠ .classDefinition := by
            rintro rfl
            exact hopen rfl
          rcases List.mem_cons.mp hmem with rfl | hbelow
          · exact ⟨[], rfl, rfl⟩
          · obtain ⟨index, child, rest, hchild, hnode, hclass⟩ :=
              exists_of_mem_ownNodesOfAll hbelow
            refine ⟨index :: rest, ?_, ?_⟩
            · rw [SyntaxTree.at?_cons, SyntaxTree.children_node, hchild]
              exact hnode
            · refine (SyntaxTree.classPlace?_cons hchild rest).trans ?_
              rw [hclass]
              exact SyntaxTree.ownPlace?_of_ne hkind

theorem exists_of_mem_ownNodesOfAll {node : SyntaxTree} {trees : List SyntaxTree}
    (hmem : node ∈ ownNodesOfAll trees) :
    ∃ (index : Nat) (child : SyntaxTree) (rest : List Nat), trees[index]? = some child ∧
      child.at? rest = some node ∧ child.classPlace? rest = none := by
  cases trees with
  | nil =>
      rw [ownNodesOfAll] at hmem
      cases hmem
  | cons tree others =>
      rw [ownNodesOfAll] at hmem
      rcases List.mem_append.mp hmem with hfirst | hothers
      · obtain ⟨rest, hnode, hclass⟩ := exists_of_mem_ownNodes hfirst
        exact ⟨0, tree, rest, rfl, hnode, hclass⟩
      · obtain ⟨index, child, rest, hchild, hnode, hclass⟩ := exists_of_mem_ownNodesOfAll hothers
        exact ⟨index + 1, child, rest, hchild, hnode, hclass⟩

end

theorem writesOwn_of_lastWrite? {imports : Imports} {name type : String} {scope : SyntaxTree}
    (hlast : lastWrite? imports name scope = some type) : WritesOwn imports name type scope := by
  obtain ⟨write, hfound, rfl⟩ := Option.map_eq_some_iff.mp hlast
  have hname : write.1 = name := by simpa using List.find?_some hfound
  obtain ⟨node, hmem, hwrite⟩ :=
    List.mem_filterMap.mp (List.mem_reverse.mp (List.mem_of_find?_eq_some hfound))
  obtain ⟨index, child, rest, hchild, hnode, hclass⟩ := exists_of_mem_ownNodesOfAll hmem
  refine ⟨index :: rest, ?_, ?_⟩
  · rw [IsWrittenAt, SyntaxTree.at?_cons, hchild, Option.bind_some, hnode, Option.bind_some, hwrite,
      ← hname]
  · rw [SyntaxTree.classPlace?_cons hchild, hclass]
    rfl

/-! Parameters have plain names. -/

theorem not_mem_of_identifier {tree : SyntaxTree} (htree : tree.Grammatical)
    (hkind : tree.kind = .identifier) : '.' ∉ tree.text.toList := by
  have hformed := htree.formed
  rw [SyntaxTree.Formed, hkind] at hformed
  exact hformed.2.1

theorem not_mem_of_parameterName? {target : SyntaxTree} (htarget : target.Grammatical)
    {name : String} (hname : parameterName? target = some name) : '.' ∉ name.toList := by
  unfold parameterName? at hname
  split at hname
  · next hkind =>
      cases hname
      exact not_mem_of_identifier htarget hkind
  all_goals first
    | cases hname
    | obtain ⟨child, hchild, rfl⟩ := Option.map_eq_some_iff.mp hname
      exact not_mem_of_identifier
        (htarget.child (List.mem_of_mem_filter (List.mem_of_find?_eq_some hchild)))
        (by simpa using List.find?_some hchild)

theorem not_mem_of_parameterType? {parameter : SyntaxTree} (hparameter : parameter.Grammatical)
    {name type : String} (htyped : parameterType? parameter = some (name, type)) :
    '.' ∉ name.toList := by
  unfold parameterType? at htyped
  split at htyped
  · obtain ⟨hint, -, htyped⟩ := Option.bind_eq_some_iff.mp htyped
    obtain ⟨found, hfound, htyped⟩ := Option.bind_eq_some_iff.mp htyped
    obtain ⟨class', -, hsame⟩ := Option.bind_eq_some_iff.mp htyped
    cases hsame
    obtain ⟨target, htarget, hname⟩ := Option.bind_eq_some_iff.mp hfound
    exact not_mem_of_parameterName?
      (hparameter.child (List.mem_of_mem_filter (List.mem_of_head? htarget))) hname
  · next hkind =>
      obtain ⟨found, hfound, htyped⟩ := Option.bind_eq_some_iff.mp htyped
      obtain ⟨hint, -, htyped⟩ := Option.bind_eq_some_iff.mp htyped
      obtain ⟨class', -, hsame⟩ := Option.bind_eq_some_iff.mp htyped
      cases hsame
      have hformed := hparameter.formed
      rw [SyntaxTree.Formed, hkind] at hformed
      exact not_mem_of_identifier (hparameter.child (List.mem_of_find?_eq_some hfound))
        (hformed found hfound)
  · cases htyped

theorem lastParameter?_of_attribute {name : String} (hattribute : isAttributeKey name = true)
    {function : SyntaxTree} (hfunction : function.Grammatical) :
    lastParameter? name function = none := by
  rw [lastParameter?, Option.bind_eq_none_iff]
  intro parameters hparameters
  rw [Option.map_eq_none_iff, List.find?_eq_none]
  intro typed hmem hname
  obtain ⟨parameter, hparameter, htyped⟩ :=
    List.mem_filterMap.mp (List.mem_reverse.mp hmem)
  have hplain := Reference.isAttributeKey_of_not_mem (not_mem_of_parameterType?
    ((hfunction.child (List.mem_of_find?_eq_some hparameters)).child
      (List.mem_of_mem_filter hparameter)) htyped)
  rw [beq_iff_eq.mp hname, hattribute] at hplain
  cases hplain

/-! What scopes give an attribute is written in them. -/

theorem writesOwn_of_body {imports : Imports} {name type : String} {definition : SyntaxTree}
    (hdefinition : definition.Grammatical) (hkind : definition.kind.isDefinition = true)
    (hlast : (definition.part? .body).bind (lastWrite? imports name) = some type) :
    WritesOwn imports name type definition := by
  obtain ⟨body, hbody, hlast⟩ := Option.bind_eq_some_iff.mp hlast
  obtain ⟨index, -, hchild⟩ := SyntaxTree.placeOf_of_part? hbody
  have hblock := hdefinition.formed.kind_body hkind hbody
  exact (writesOwn_of_lastWrite? hlast).of_child hchild (by rw [hblock]; decide)

theorem writesOwn_of_scopeType? {imports : Imports} {name type : String}
    (hattribute : isAttributeKey name = true) {scope : SyntaxTree} (hscope : scope.Grammatical)
    (htype : scopeType? imports name scope = some type) : WritesOwn imports name type scope := by
  unfold scopeType? at htype
  split at htype
  · next hkind =>
      rw [lastParameter?_of_attribute hattribute hscope, Option.or_none] at htype
      exact writesOwn_of_body hscope (by rw [hkind]; rfl) htype
  · next hkind => exact writesOwn_of_body hscope (by rw [hkind]; rfl) htype
  · exact writesOwn_of_lastWrite? htype

theorem writesOwn_of_recordedBy? {imports : Imports} {name type : String} {tree : SyntaxTree}
    (htree : tree.Grammatical) (hrecorded : recordedBy? imports name tree = some type) :
    WritesOwn imports name type tree := by
  unfold recordedBy? at hrecorded
  split at hrecorded
  · next hfunction => exact writesOwn_of_scopeType? hfunction.2 htree hrecorded
  · cases hrecorded

mutual

theorem writesOwn_of_recordedType? {imports : Imports} {name type : String} {tree : SyntaxTree}
    (htree : tree.Grammatical) (hrecorded : recordedType? imports name tree = some type) :
    tree.kind ≠ .classDefinition ∧ WritesOwn imports name type tree := by
  cases tree with
  | node kind role start stop text children =>
      rw [recordedType?] at hrecorded
      split at hrecorded
      · cases hrecorded
      · next hkind =>
          refine ⟨fun hclass => hkind (.inr hclass), ?_⟩
          rcases Option.or_eq_some_iff.mp hrecorded with hbelow | ⟨-, hhere⟩
          · obtain ⟨index, child, hchild, hplain, hwrites⟩ := exists_of_recordedTypeOfAll?
              (SyntaxTree.grammatical_node.mp htree).2 hbelow
            exact hwrites.of_child hchild hplain
          · exact writesOwn_of_recordedBy? htree hhere

theorem exists_of_recordedTypeOfAll? {imports : Imports} {name type : String}
    {trees : List SyntaxTree} (htrees : ∀ tree ∈ trees, tree.Grammatical)
    (hrecorded : recordedTypeOfAll? imports name trees = some type) :
    ∃ (index : Nat) (tree : SyntaxTree), trees[index]? = some tree ∧
      tree.kind ≠ .classDefinition ∧ WritesOwn imports name type tree := by
  cases trees with
  | nil =>
      rw [recordedTypeOfAll?] at hrecorded
      cases hrecorded
  | cons tree rest =>
      obtain ⟨htree, hrest⟩ := List.forall_mem_cons.mp htrees
      rw [recordedTypeOfAll?] at hrecorded
      rcases Option.or_eq_some_iff.mp hrecorded with hlater | ⟨-, hfirst⟩
      · obtain ⟨index, found, hfound, hwrites⟩ := exists_of_recordedTypeOfAll? hrest hlater
        exact ⟨index + 1, found, hfound, hwrites⟩
      · exact ⟨0, tree, rfl, writesOwn_of_recordedType? htree hfirst⟩

end

theorem writesOwn_of_recordedBefore? {imports : Imports} {name type : String} {tree : SyntaxTree}
    (htree : tree.Grammatical) {site : List Nat}
    (hrecorded : recordedBefore? imports name tree site = some type) :
    WritesOwn imports name type tree := by
  induction site generalizing tree with
  | nil => cases hrecorded
  | cons index rest ih =>
      rw [recordedBefore?, Option.or_eq_some_iff, Option.or_eq_some_iff] at hrecorded
      rcases hrecorded with hinside | ⟨-, hbefore | ⟨-, hhere⟩⟩
      · split at hinside
        · next child hchild =>
            split at hinside
            · cases hinside
            · next hplain =>
                exact (ih (htree.child (List.mem_of_getElem? hchild)) hinside).of_child hchild
                  hplain
        · cases hinside
      · obtain ⟨position, child, hchild, hplain, hwrites⟩ := exists_of_recordedTypeOfAll?
          (fun child hmem => htree.child (List.mem_of_mem_take hmem)) hbefore
        rw [List.getElem?_take] at hchild
        split at hchild
        · exact hwrites.of_child hchild hplain
        · cases hchild
      · exact writesOwn_of_recordedBy? htree hhere

/-- Every type that a scope gives an attribute is written there, outside of the classes in it. -/
theorem writesOwn_of_givenType? {imports : Imports} {name type : String}
    (hattribute : isAttributeKey name = true) {scope : SyntaxTree × List Nat}
    (hscope : scope.1.Grammatical) (hgiven : givenType? imports name scope = some type) :
    WritesOwn imports name type scope.1 := by
  unfold givenType? at hgiven
  split at hgiven
  · rcases Option.or_eq_some_iff.mp hgiven with hrecorded | ⟨-, htype⟩
    · exact writesOwn_of_recordedBefore? hscope hrecorded
    · exact writesOwn_of_scopeType? hattribute hscope htype
  · exact writesOwn_of_scopeType? hattribute hscope hgiven

/-! Scopes inside and outside of the innermost class -/

/-- No class stands between the scope and the site, but the scope may be a class. -/
def isOwnScope (scope : SyntaxTree × List Nat) : Bool :=
  scope.1.classPlace? scope.2 == scope.1.ownPlace?

/-- The scopes around a site up to its innermost class. -/
def ownScopesOf (root : SyntaxTree) (site : List Nat) : List (SyntaxTree × List Nat) :=
  (scopesOf root site).takeWhile isOwnScope

theorem isOwnScope_of_mem {tree inner : SyntaxTree} {site : List Nat}
    (hinner : tree.at? site = some inner) (hnone : tree.classPlace? site = none)
    {scope : SyntaxTree × List Nat} (hmem : scope ∈ tree.scopesAround site) :
    isOwnScope scope = true := by
  induction site generalizing tree with
  | nil => cases hmem
  | cons index rest ih =>
      obtain ⟨child, hchild, hbelow⟩ := SyntaxTree.exists_child_of_at? hinner
      have hplace := SyntaxTree.classPlace?_cons hchild rest
      rw [hnone, eq_comm, Option.or_eq_none_iff, Option.map_eq_none_iff] at hplace
      rw [SyntaxTree.scopesAround_cons hchild, List.mem_append] at hmem
      rcases hmem with hinside | hhere
      · exact ih hbelow hplace.1 hinside
      · split at hhere
        · rw [List.mem_singleton.mp hhere, isOwnScope, hnone, hplace.2]
          rfl
        · cases hhere

theorem classPlace?_child_of_isOwnScope {tree child : SyntaxTree} {index : Nat}
    (hchild : tree.children[index]? = some child) {rest : List Nat}
    (hown : isOwnScope (tree, index :: rest) = true) : child.classPlace? rest = none := by
  rw [isOwnScope, beq_iff_eq, SyntaxTree.classPlace?_cons hchild] at hown
  cases hplace : child.classPlace? rest with
  | none => rfl
  | some place =>
      rw [hplace] at hown
      cases SyntaxTree.eq_nil_of_ownPlace? hown.symm

/-- Where no class stands between an outer scope and the site, none does further inside. -/
theorem pairwise_scopesAround {tree inner : SyntaxTree} {site : List Nat}
    (hinner : tree.at? site = some inner) :
    (tree.scopesAround site).Pairwise fun inside outside =>
      isOwnScope outside = true → isOwnScope inside = true := by
  induction site generalizing tree with
  | nil => exact .nil
  | cons index rest ih =>
      obtain ⟨child, hchild, hbelow⟩ := SyntaxTree.exists_child_of_at? hinner
      rw [SyntaxTree.scopesAround_cons hchild, List.pairwise_append]
      refine ⟨ih hbelow, ?_, ?_⟩
      · split
        · exact List.pairwise_singleton _ _
        · exact .nil
      · intro inside hinside outside houtside hown
        split at houtside
        · rw [List.mem_singleton.mp houtside] at hown
          exact isOwnScope_of_mem hbelow (classPlace?_child_of_isOwnScope hchild hown) hinside
        · cases houtside

theorem pairwise_scopesOf {root inner : SyntaxTree} (hroot : root.kind = .root) {site : List Nat}
    (hinner : root.at? site = some inner) :
    (scopesOf root site).Pairwise fun inside outside =>
      isOwnScope outside = true → isOwnScope inside = true := by
  rw [scopesOf, List.pairwise_append]
  refine ⟨pairwise_scopesAround hinner, List.pairwise_singleton _ _, ?_⟩
  intro inside hinside outside houtside hown
  rw [List.mem_singleton.mp houtside, isOwnScope, beq_iff_eq,
    SyntaxTree.ownPlace?_of_ne (by rw [hroot]; decide)] at hown
  exact isOwnScope_of_mem hinner hown hinside

theorem not_isOwnScope_of_mem_dropWhile {scopes : List (SyntaxTree × List Nat)}
    (hscopes : scopes.Pairwise fun inside outside =>
      isOwnScope outside = true → isOwnScope inside = true)
    {scope : SyntaxTree × List Nat} (hmem : scope ∈ scopes.dropWhile isOwnScope) :
    isOwnScope scope = false := by
  induction hscopes with
  | nil => cases hmem
  | @cons first rest hfirst _ ih =>
      rw [List.dropWhile_cons] at hmem
      split at hmem
      · exact ih hmem
      · next hother =>
          rw [Bool.eq_false_iff]
          rcases List.mem_cons.mp hmem with rfl | hlater
          · exact hother
          · exact fun hown => hother (hfirst scope hlater hown)

theorem exists_of_mem_scopesAround {tree inner : SyntaxTree} {site : List Nat}
    (hinner : tree.at? site = some inner) {scope : SyntaxTree × List Nat}
    (hmem : scope ∈ tree.scopesAround site) :
    ∃ place, site = place ++ scope.2 ∧ tree.at? place = some scope.1 := by
  induction site generalizing tree with
  | nil => cases hmem
  | cons index rest ih =>
      obtain ⟨child, hchild, hbelow⟩ := SyntaxTree.exists_child_of_at? hinner
      rw [SyntaxTree.scopesAround_cons hchild, List.mem_append] at hmem
      rcases hmem with hinside | hhere
      · obtain ⟨place, hplace, hscope⟩ := ih hbelow hinside
        refine ⟨index :: place, by rw [hplace, List.cons_append], ?_⟩
        rw [SyntaxTree.at?_cons, hchild]
        exact hscope
      · split at hhere
        · rw [List.mem_singleton.mp hhere]
          exact ⟨[], rfl, rfl⟩
        · cases hhere

theorem exists_of_mem_scopesOf {root inner : SyntaxTree} {site : List Nat}
    (hinner : root.at? site = some inner) {scope : SyntaxTree × List Nat}
    (hmem : scope ∈ scopesOf root site) :
    ∃ place, site = place ++ scope.2 ∧ root.at? place = some scope.1 := by
  rcases List.mem_append.mp hmem with haround | htop
  · exact exists_of_mem_scopesAround hinner haround
  · rw [List.mem_singleton.mp htop]
    exact ⟨[], rfl, rfl⟩

theorem eq_of_append_place {place : List Nat} {one other around : Option (List Nat)}
    (haround : ∀ outer, around = some outer → outer.length < place.length)
    (hsame : (one.map (place ++ ·)).or around = (other.map (place ++ ·)).or around) :
    one = other := by
  -- a place below the node is no shorter than its address, a place around it is
  have hlong : ∀ rest : List Nat, around ≠ some (place ++ rest) := by
    intro rest hrest
    have hlength := haround _ hrest
    rw [List.length_append] at hlength
    omega
  cases one with
  | none =>
      cases other with
      | none => rfl
      | some rest => exact absurd hsame (hlong rest)
  | some rest =>
      cases other with
      | none => exact absurd hsame.symm (hlong rest)
      | some rest' =>
          have hrest : place ++ rest = place ++ rest' := Option.some.inj hsame
          rw [List.append_cancel_left hrest]

section Provenance

variable {imports : Imports} {name type : String} {root inner : SyntaxTree} {site : List Nat}
variable {scope : SyntaxTree × List Nat}
variable (hattribute : isAttributeKey name = true) (hroot : root.Grammatical)
variable (hinner : root.at? site = some inner) (hmem : scope ∈ scopesOf root site)
variable (hgiven : givenType? imports name scope = some type)

include hattribute hroot hinner hmem hgiven

/-- A scope gives what is written in it, and the class around the write is the scope or is around
the scope. -/
theorem exists_write_of_givenType? :
    ∃ place write, site = place ++ scope.2 ∧ root.at? place = some scope.1 ∧
      IsWrittenAt imports name type root write ∧
      root.classPlace? write =
        (scope.1.ownPlace?.map (place ++ ·)).or (root.classPlace? place) := by
  obtain ⟨place, hsite, hplace⟩ := exists_of_mem_scopesOf hinner hmem
  obtain ⟨rest, hwritten, hclass⟩ :=
    writesOwn_of_givenType? hattribute (hroot.of_at? hplace) hgiven
  refine ⟨place, place ++ rest, hsite, hplace, hwritten.below hplace, ?_⟩
  rw [SyntaxTree.classPlace?_append hplace, hclass]

theorem exists_write_of_isOwnScope (hown : isOwnScope scope = true) :
    ∃ place, IsWrittenAt imports name type root place ∧
      root.classPlace? place = root.classPlace? site := by
  obtain ⟨place, write, hsite, hplace, hwritten, hclass⟩ :=
    exists_write_of_givenType? hattribute hroot hinner hmem hgiven
  refine ⟨write, hwritten, ?_⟩
  rw [hclass, hsite, SyntaxTree.classPlace?_append hplace, beq_iff_eq.mp hown]

theorem exists_write_of_not_isOwnScope (hother : isOwnScope scope = false) :
    ∃ place, IsWrittenAt imports name type root place ∧
      root.classPlace? place ≠ root.classPlace? site ∧
      ∀ outer, root.classPlace? place = some outer → outer <+: site := by
  obtain ⟨place, write, rfl, hplace, hwritten, hclass⟩ :=
    exists_write_of_givenType? hattribute hroot hinner hmem hgiven
  rw [isOwnScope, beq_eq_false_iff_ne] at hother
  -- the class around the write is the scope or around it, the one around the site further inside
  refine ⟨write, hwritten, ?_, ?_⟩
  · intro hsame
    rw [hclass, SyntaxTree.classPlace?_append hplace] at hsame
    exact hother (eq_of_append_place
      (fun outer houter => (SyntaxTree.classPlace?_isPrefix houter).2) hsame).symm
  · intro outer houter
    rw [hclass, Option.or_eq_some_iff] at houter
    rcases houter with hhere | ⟨-, haround⟩
    · obtain ⟨own, hown, rfl⟩ := Option.map_eq_some_iff.mp hhere
      rw [SyntaxTree.eq_nil_of_ownPlace? hown, List.append_nil]
      exact List.prefix_append _ _
    · exact (SyntaxTree.classPlace?_isPrefix haround).1.trans (List.prefix_append _ _)

end Provenance

end Names

namespace Reference

def attributeTarget (imports : Imports) (name method : String) : Option String → String
  | some type => unalias imports type ++ "." ++ method
  | none =>
      match imports.get? name with
      | some imported => imported.symbol ++ "." ++ method
      | none => method

theorem attributeTarget_ne_empty (imports : Imports) (name : String) {method : String}
    (hmethod : method ≠ "") (type? : Option String) :
    attributeTarget imports name method type? ≠ "" := by
  unfold attributeTarget
  split
  · simp
  · split
    · simp
    · exact hmethod

def attributeName (receiver : SyntaxTree) : String :=
  String.ofList (Text.squeeze receiver.text.toList)

theorem methodTarget_of_attribute (chunk : Chunk) (file : FileContext)
    {root call receiver : SyntaxTree} (hroot : root.kind = .root) {site : List Nat}
    (hcall : root.at? site = some call) (haccess : receiver.kind = .memberAccess)
    (hattribute : isAttributeKey (attributeName receiver) = true) (current : Option String)
    (method : String) :
    methodTarget (stateIn chunk file root site).context current receiver method =
      attributeTarget file.imports (attributeName receiver) method
        (attributeType? file.imports (attributeName receiver) (scopesOf root site)) := by
  have hfile := file_stateIn chunk file root site
  have htype := typeOf?_of_attribute hattribute chunk file hroot hcall
  rw [methodTarget, receiverClass?, haccess]
  dsimp only
  rw [← attributeName, ownerOf?, htype, Context.import?, hfile]
  cases attributeType? file.imports (attributeName receiver) (scopesOf root site) with
  | none => cases hget : file.imports.get? (attributeName receiver) <;> simp [attributeTarget, hget]
  | some type =>
      dsimp only
      rw [Context.unalias, hfile]
      rfl

theorem madeIn_of_attribute {chunk : Chunk} (file : FileContext) {root call receiver : SyntaxTree}
    {site : List Nat} {method : String} (hroot : root.IsModule)
    (hcall : root.at? site = some call) (hmethod : IsMethodCall call receiver method)
    (haccess : receiver.kind = .memberAccess)
    (hattribute : isAttributeKey (attributeName receiver) = true)
    (hreached : IsReached chunk root site) :
    madeIn chunk file root site =
      [callReference chunk call
        (attributeTarget file.imports (attributeName receiver) method
          (attributeType? file.imports (attributeName receiver) (scopesOf root site))) true] := by
  have hgrammatical := hroot.grammatical.of_at? hcall
  have htarget := methodTarget_of_attribute chunk file hroot.kind_eq hcall haccess
    hattribute (classIn chunk file root site) method
  rw [hmethod.madeIn_eq file hcall hreached, htarget]
  rw [htarget]
  exact attributeTarget_ne_empty _ _ (hmethod.method_ne_empty hgrammatical) _

theorem exists_write_of_ownScopesOf {imports : Imports} {name type : String}
    {root inner : SyntaxTree} {site : List Nat} (hattribute : isAttributeKey name = true)
    (hroot : root.Grammatical) (hinner : root.at? site = some inner)
    (htype : attributeType? imports name (ownScopesOf root site) = some type) :
    ∃ place, IsWrittenAt imports name type root place ∧
      root.classPlace? place = root.classPlace? site := by
  obtain ⟨scope, hmem, hgiven⟩ := List.exists_of_findSome?_eq_some htype
  exact exists_write_of_isOwnScope hattribute hroot hinner
    ((List.takeWhile_prefix _).subset hmem) hgiven (List.mem_takeWhile_imp hmem)

theorem exists_write_of_outer_scopes {imports : Imports} {name type : String}
    {root inner : SyntaxTree} {site : List Nat} (hattribute : isAttributeKey name = true)
    (hroot : root.Grammatical) (hkind : root.kind = .root) (hinner : root.at? site = some inner)
    (htype : attributeType? imports name ((scopesOf root site).dropWhile isOwnScope) = some type) :
    ∃ place, IsWrittenAt imports name type root place ∧
      root.classPlace? place ≠ root.classPlace? site ∧
      ∀ outer, root.classPlace? place = some outer → outer <+: site := by
  obtain ⟨scope, hmem, hgiven⟩ := List.exists_of_findSome?_eq_some htype
  exact exists_write_of_not_isOwnScope hattribute hroot hinner
    ((List.dropWhile_suffix _).subset hmem) hgiven
    (not_isOwnScope_of_mem_dropWhile (pairwise_scopesOf hkind hinner) hmem)

theorem attributeType?_scopesOf (imports : Imports) (name : String) (root : SyntaxTree)
    (site : List Nat) :
    attributeType? imports name (scopesOf root site) =
      (attributeType? imports name (ownScopesOf root site)).or
        (attributeType? imports name ((scopesOf root site).dropWhile isOwnScope)) := by
  rw [attributeType?, attributeType?, attributeType?, ownScopesOf, ← List.findSome?_append,
    List.takeWhile_append_dropWhile]

/-- The method of a call on an attribute is that of the type which the scopes around the call give
it.  A type from inside of the innermost class goes first and was written in that class.  Where
there is none, one that was written around that class is taken. -/
theorem attribute_call_by_scopes_around {chunk : Chunk} (file : FileContext)
    {root call receiver : SyntaxTree} {site : List Nat} {method : String}
    (hroot : root.IsModule) (hcall : root.at? site = some call)
    (hmethod : IsMethodCall call receiver method) (haccess : receiver.kind = .memberAccess)
    (hattribute : isAttributeKey (attributeName receiver) = true)
    (hreached : IsReached chunk root site) :
    let name := attributeName receiver
    let type? := attributeType? file.imports name (scopesOf root site)
    let own? := attributeType? file.imports name (ownScopesOf root site)
    let reference := callReference chunk call (attributeTarget file.imports name method type?) true
    ofTree chunk file root = root.addresses.flatMap (madeIn chunk file root) ∧
      madeIn chunk file root site = [reference] ∧ reference ∈ ofTree chunk file root ∧
      (∀ type, own? = some type → type? = some type ∧
        ∃ place, IsWrittenAt file.imports name type root place ∧
          root.classPlace? place = root.classPlace? site) ∧
      (own? = none → ∀ type, type? = some type →
        ∃ place, IsWrittenAt file.imports name type root place ∧
          root.classPlace? place ≠ root.classPlace? site ∧
          ∀ outer, root.classPlace? place = some outer → outer <+: site) := by
  intro name type? own? reference
  have hgrammatical := hroot.grammatical
  have hmade := madeIn_of_attribute file hroot hcall hmethod haccess hattribute hreached
  have hsplit : type? = own?.or
      (attributeType? file.imports name ((scopesOf root site).dropWhile isOwnScope)) :=
    attributeType?_scopesOf file.imports name root site
  refine ⟨ofTree_eq_flatMap chunk file root, hmade, mem_ofTree_of_madeIn hcall ?_, ?_, ?_⟩
  · rw [hmade]
    exact List.mem_singleton_self _
  · intro type hown
    refine ⟨?_, exists_write_of_ownScopesOf hattribute hgrammatical hcall hown⟩
    rw [hsplit, hown, Option.some_or]
  · intro hown type htype
    refine exists_write_of_outer_scopes hattribute hgrammatical hroot.kind_eq hcall ?_
    rw [← htype, hsplit, hown, Option.none_or]

/-- The attribute of an inner class, which the outer class writes too. -/
theorem attribute_call_by_inner_class :
    let content := "class A:\n def f(self):\n  self.a = X()\n class B:\n  def f(self):\n" ++
      "   self.a = Y()\n  def g(self):\n   self.a.m()"
    let chunk : Chunk :=
      { id := "a", name := "A", kind := .classDef, file := "a.py", path := "a.py",
        language := "python", startLine := 1, endLine := 8, content }
    let site := [0, 3, 1, 3, 1, 4, 0, 0]
    ∃ root call, parse? content = some root ∧ root.at? site = some call ∧
      ∀ file, file.imports = [] →
        madeIn chunk file root site = [callReference chunk call "Y.m" true] ∧
        ∃ place, IsWrittenAt [] "self.a" "Y" root place ∧
          root.classPlace? place = root.classPlace? site := by
  intro content chunk site
  have hshape : (do
      let root ← parse? content
      let call ← root.at? site
      let callee ← call.part? .function
      let receiver ← callee.part? .object
      let member ← callee.part? .member
      let own ← attributeType? [] "self.a" (ownScopesOf root site)
      pure ([call.kind, callee.kind, receiver.kind], [attributeName receiver, member.text, own],
        root.isWithin .decorator site)) =
      some ([.call, .memberAccess, .memberAccess], ["self.a", "m", "Y"], false) := by
    decide +kernel
  simp only [Option.bind_eq_bind, Option.bind_eq_some_iff, Option.pure_def, Option.some.injEq,
    Prod.mk.injEq, List.cons.injEq, and_true] at hshape
  obtain ⟨root, hroot, call, hcall, callee, hcallee, receiver, hreceiver, member, hmember, own,
    hown, ⟨hkind, hmemberAccess, haccess⟩, ⟨hname, hmethod, rfl⟩, hdecorator⟩ := hshape
  refine ⟨root, call, hroot, hcall, fun file himports => ?_⟩
  have hreached : IsReached chunk root site := ⟨hdecorator, fun hfile => by cases hfile⟩
  have hcalls := attribute_call_by_scopes_around file (isModule_of_parse hroot) hcall
    ⟨hkind, callee, member, hcallee, hmemberAccess, hreceiver, hmember, hmethod⟩ haccess
    (by rw [hname]; decide) hreached
  rw [himports, hname] at hcalls
  obtain ⟨-, hmade, -, hinner, -⟩ := hcalls
  obtain ⟨htype, hwritten⟩ := hinner "Y" hown
  rw [htype] at hmade
  exact ⟨hmade, hwritten⟩

/-- The attribute of an outer class, taken for one of the inner class, which writes none. -/
theorem attribute_call_by_outer_class :
    let content := "class A:\n def f(self):\n  self.a = X()\n class B:\n  def g(self):\n" ++
      "   self.a.m()"
    let chunk : Chunk :=
      { id := "a", name := "A", kind := .classDef, file := "a.py", path := "a.py",
        language := "python", startLine := 1, endLine := 6, content }
    let site := [0, 3, 1, 3, 0, 4, 0, 0]
    ∃ root, parse? content = some root ∧
      (madeIn chunk {} root site).map Reference.target = ["X.m"] ∧
      ∀ place type, IsWrittenAt [] "self.a" type root place →
        root.classPlace? place ≠ root.classPlace? site := by
  intro content chunk site
  have hshape : (do
      let root ← parse? content
      pure ((madeIn chunk {} root site).map Reference.target,
        root.addresses.all fun place =>
          ((root.at? place).bind (write? [])).all fun write =>
            !(write.1 == "self.a" && root.classPlace? place == root.classPlace? site))) =
      some (["X.m"], true) := by
    decide +kernel
  simp only [Option.bind_eq_bind, Option.bind_eq_some_iff, Option.pure_def, Option.some.injEq,
    Prod.mk.injEq] at hshape
  obtain ⟨root, hroot, hmade, hall⟩ := hshape
  refine ⟨root, hroot, hmade, fun place type hwritten hsame => ?_⟩
  obtain ⟨node, hnode, -⟩ := Option.bind_eq_some_iff.mp hwritten
  have hplace := List.all_eq_true.mp hall place (SyntaxTree.mem_addresses_of_at? hnode)
  rw [hwritten, hsame] at hplace
  simp at hplace

end Reference

end CodeGraph
