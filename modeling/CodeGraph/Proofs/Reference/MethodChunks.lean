import CodeGraph.Proofs.Chunk.Calls
import CodeGraph.Proofs.Reference.Copies
import CodeGraph.Proofs.Reference.SelfCalls
import CodeGraph.Proofs.Reference.Walk
import CodeGraph.Proofs.Syntax.Placement

namespace CodeGraph

open Syntax Names SyntaxTree

/-! The chunk of a method against the chunk of its class.  The class is walked over as a whole, with
the scopes and the methods around the method, and the text of the method is outdented; still both
make the same references in the method. -/

/-! The sites of a method below the statement of the class -/

theorem isApart_of_definitionOf? {statement definition : SyntaxTree}
    (hdefinition : definitionOf? statement = some definition) :
    isApart statement.kind = true := by
  unfold definitionOf? at hdefinition
  split at hdefinition
  · next hkind => rw [hkind]; rfl
  · next hkind => rw [hkind]; rfl
  · next hkind => rw [hkind]; rfl
  · cases hdefinition

theorem ownNodes_of_isApart {tree : SyntaxTree} (hhides : isApart tree.kind = true) :
    ownNodes tree = [] := by
  cases tree
  rw [ownNodes]
  exact if_pos hhides

theorem definitionsAround_definitionPlace (statement : SyntaxTree) :
    statement.definitionsAround (definitionPlace statement) = [] := by
  unfold definitionPlace
  split
  · next hkind =>
      rw [placeOf]
      cases statement.children.findIdx? fun child => child.role == some .definition with
      | none => rfl
      | some index =>
          rw [Option.toList_some, definitionsAround, hkind]
          cases statement.children[index]? <;> rfl
  · rfl

/-! The addresses below a node stand together. -/

theorem exists_addressesOfAll {trees : List SyntaxTree} {index : Nat} {tree : SyntaxTree}
    (htree : trees[index]? = some tree) (base : Nat) :
    ∃ before after, addressesOfAll base trees =
      before ++ tree.addresses.map ((base + index) :: ·) ++ after := by
  induction trees generalizing index base with
  | nil => cases htree
  | cons first rest ih =>
      rw [addressesOfAll]
      cases index with
      | zero =>
          cases htree
          exact ⟨[], _, rfl⟩
      | succ index =>
          obtain ⟨before, after, hrest⟩ := ih htree (base + 1)
          refine ⟨first.addresses.map (base :: ·) ++ before, after, ?_⟩
          rw [hrest, Nat.add_right_comm, Nat.add_assoc, List.append_assoc, List.append_assoc,
            List.append_assoc]

theorem exists_addresses {tree inner : SyntaxTree} {place : List Nat}
    (hinner : tree.at? place = some inner) :
    ∃ before after, tree.addresses = before ++ inner.addresses.map (place ++ ·) ++ after := by
  induction place generalizing tree with
  | nil =>
      cases hinner
      exact ⟨[], [], by simp⟩
  | cons index place ih =>
      obtain ⟨child, hchild, hbelow⟩ := exists_child_of_at? hinner
      obtain ⟨before, after, hinside⟩ := ih hbelow
      cases tree with
      | node kind role start stop text children =>
          obtain ⟨former, latter, hall⟩ := exists_addressesOfAll hchild 0
          change addressesOfAll 0 children = _ at hall
          refine ⟨[] :: former ++ before.map (index :: ·), after.map (index :: ·) ++ latter, ?_⟩
          rw [addresses, hall, hinside]
          simp

theorem mem_preorder_of_at? {tree inner : SyntaxTree} {site : List Nat}
    (hinner : tree.at? site = some inner) : inner ∈ tree.preorder := by
  induction site generalizing tree with
  | nil =>
      cases hinner
      exact mem_preorder_self inner
  | cons index rest ih =>
      obtain ⟨child, hchild, hbelow⟩ := exists_child_of_at? hinner
      exact mem_preorder_of_child (List.mem_of_getElem? hchild) (ih hbelow)

namespace ClassMember

variable {root : SyntaxTree} (member : ClassMember root)

theorem inside_nil_append (rest : List Nat) : member.inside [] ++ rest = member.inside rest := by
  simp [inside]

section

variable (hroot : root.Grammatical)

include hroot

/-- Around the method stands its class. -/
theorem definitionsAround_inside (rest : List Nat) :
    member.statement.definitionsAround (member.inside rest) =
      member.tree.definitionsAround rest ++ [member.definition] := by
  obtain ⟨index, hplace, hbody⟩ := placeOf_of_part? member.body_eq
  have hdefinition : member.definition.kind.isDefinition = true := by rw [member.isClass]; rfl
  have hblock : member.body.kind.isDefinition = false := by rw [member.kind_body hroot]; rfl
  rw [inside, definitionsAround_append (at?_definitionPlace member.definition_eq),
    definitionsAround_definitionPlace, List.append_nil, hplace, List.singleton_append,
    definitionsAround_cons hbody, if_pos hdefinition, definitionsAround_cons member.tree_eq,
    if_neg (by simp [hblock])]

theorem classAround?_inside (rest : List Nat) :
    member.statement.classAround? (member.inside rest) =
      (member.tree.classAround? rest).or (some member.definition) := by
  rw [classAround?, member.definitionsAround_inside hroot, List.find?_append, List.find?_singleton,
    member.isClass]
  rfl

end

end ClassMember

theorem forall_mem_definitionsAround {tree : SyntaxTree} (htree : tree.Grammatical)
    (site : List Nat) : ∀ definition ∈ tree.definitionsAround site,
      definition.Grammatical ∧ definition.kind.isDefinition = true := by
  induction site generalizing tree with
  | nil => exact fun _ hmem => absurd hmem List.not_mem_nil
  | cons index rest ih =>
      have hhere : tree.kind.isDefinition = true → ∀ definition ∈ [tree],
          definition.Grammatical ∧ definition.kind.isDefinition = true :=
        fun hkind => List.forall_mem_singleton.mpr ⟨htree, hkind⟩
      rw [definitionsAround]
      cases hchild : tree.children[index]? with
      | none =>
          split
          · next hkind => exact hhere hkind
          · exact fun _ hmem => absurd hmem List.not_mem_nil
      | some child =>
          have hinside := ih (htree.child (List.mem_of_getElem? hchild))
          split
          · next hkind => exact List.forall_mem_append.mpr ⟨hinside, hhere hkind⟩
          · exact hinside

/-- A call in a function lies below the function, and not between its decorators. -/
theorem definitionsAround_ne_nil {tree method call : SyntaxTree} (htree : tree.Grammatical)
    (hmethod : definitionOf? tree = some method) {site : List Nat}
    (hcall : tree.at? site = some call) (hkind : call.kind = .call)
    (hreached : tree.isWithin .decorator site = false) : tree.definitionsAround site ≠ [] := by
  -- a definition that holds the call is one of those around it
  have hinside : ∀ {definition : SyntaxTree} {rest : List Nat},
      definition.kind.isDefinition = true → definition.at? rest = some call →
        definition.definitionsAround rest ≠ [] := by
    intro definition rest hdefinition hrest
    cases rest with
    | nil =>
        cases hrest
        rw [hkind] at hdefinition
        cases hdefinition
    | cons index rest =>
        obtain ⟨child, hchild, -⟩ := exists_child_of_at? hrest
        rw [definitionsAround_cons hchild, if_pos hdefinition]
        simp
  unfold definitionOf? at hmethod
  split at hmethod
  · next hfunction => exact hinside (by rw [hfunction]; rfl) hcall
  · next hclass => exact hinside (by rw [hclass]; rfl) hcall
  · next hdecorated =>
      cases site with
      | nil =>
          cases hcall
          rw [hdecorated] at hkind
          cases hkind
      | cons index rest =>
          obtain ⟨child, hchild, hbelow⟩ := exists_child_of_at? hcall
          have hmem := List.mem_of_getElem? hchild
          have hformed := htree.formed
          rw [Formed, hdecorated] at hformed
          rw [definitionsAround_cons hchild, if_neg (by rw [hdecorated]; decide)]
          rw [isWithin_child (by rw [hdecorated]; decide) hchild] at hreached
          rcases hformed.2 child hmem with hdecorator | htrivia | hdefinition
          · have hwithin : child.isWithin .decorator rest = true := by
              cases rest <;> simp [isWithin, hdecorator]
            rw [hwithin] at hreached
            cases hreached
          · have hbelowTrivia := isTrivia_of_at? (htree.child hmem) htrivia hbelow
            rw [hkind] at hbelowTrivia
            cases hbelowTrivia
          · exact hinside hdefinition hbelow
  · cases hmethod

namespace Reference

/-! A class chunk reports no signature. -/

theorem signatureDue_enter {state : Walk} (hdone : state.signatureDue = false)
    (tree : SyntaxTree) : (state.enter tree).signatureDue = false := by
  unfold Walk.enter
  split
  · exact hdone
  · rfl
  · exact hdone

theorem signatureDue_leave {state : Walk} (hdone : state.signatureDue = false) (kind : Kind) :
    (state.leave kind).signatureDue = false := by
  unfold Walk.leave
  split
  · exact hdone
  · exact hdone

mutual

theorem signatureDue_walk (origin : Origin) (current : Option String) (depth : Nat) {state : Walk}
    (hdone : state.signatureDue = false) (tree : SyntaxTree) :
    (walk origin current depth state tree).2.signatureDue = false := by
  cases hskipped : isSkipped origin depth tree.kind with
  | true => rwa [walk_of_isSkipped hskipped]
  | false =>
      cases tree with
      | node kind role start stop text children =>
          rw [walk_of_not_isSkipped hskipped]
          exact signatureDue_leave
            (signatureDue_walkAll origin _ (depth + 1) (signatureDue_enter hdone _) children) kind

theorem signatureDue_walkAll (origin : Origin) (current : Option String) (depth : Nat)
    {state : Walk} (hdone : state.signatureDue = false) (trees : List SyntaxTree) :
    (walkAll origin current depth state trees).2.signatureDue = false := by
  cases trees with
  | nil => rwa [walkAll]
  | cons tree rest =>
      rw [walkAll_cons]
      exact signatureDue_walkAll origin current depth
        (signatureDue_walk origin current depth hdone tree) rest

end

theorem signatureDue_stateAt (origin : Origin) (current : Option String) (depth : Nat)
    {state : Walk} (hdone : state.signatureDue = false) (tree : SyntaxTree) (site : List Nat) :
    (stateAt origin current depth state tree site).signatureDue = false := by
  induction site generalizing tree current depth state with
  | nil => exact hdone
  | cons index rest ih =>
      rw [stateAt]
      split
      · exact ih _ _ (signatureDue_walkAll origin _ _ (signatureDue_enter hdone tree) _) _
      · exact hdone

theorem relation_of_at? {origin : Origin} {tree : SyntaxTree} {relation : Relation}
    {isMethodCall : Bool} {target : String} {reference : Reference}
    (hat : at? origin tree relation isMethodCall target = some reference) :
    reference.relation = relation := by
  rw [eq_of_at? hat]

theorem relation_of_mem_filterMap {origin : Origin} {tree : SyntaxTree} {relation : Relation}
    {targets : List String} {reference : Reference}
    (hmem : reference ∈ targets.filterMap (at? origin tree relation false)) :
    reference.relation = relation := by
  obtain ⟨target, -, hat⟩ := List.mem_filterMap.mp hmem
  exact relation_of_at? hat

theorem relation_of_mem_ofExcept {origin : Origin} {context : Context} {tree : SyntaxTree}
    {reference : Reference} (hmem : reference ∈ ofExcept origin context tree) :
    reference.relation = .catches := by
  unfold ofExcept at hmem
  split at hmem
  · exact relation_of_mem_filterMap hmem
  · cases hmem

/-- Only the signature of a function uses types. -/
theorem relation_of_mem_madeBy {origin : Origin} {current : Option String} {state : Walk}
    {tree : SyntaxTree} (hkind : tree.kind ≠ .functionDefinition) {reference : Reference}
    (hmem : reference ∈ madeBy origin current state tree) : reference.relation ≠ .usesType := by
  have hother : ∀ {relation}, reference.relation = relation → relation ≠ .usesType →
      reference.relation ≠ .usesType := fun hrelation hne => hrelation ▸ hne
  unfold madeBy at hmem
  split at hmem
  · exact hother (relation_of_mem_filterMap hmem) (by decide)
  · next hfunction => exact absurd hfunction hkind
  · unfold ofNode at hmem
    split at hmem
    · unfold ofCall at hmem
      split at hmem
      · exact hother (relation_of_at? (Option.mem_toList.mp hmem)) (by decide)
      · cases hmem
    · obtain ⟨target, -, hat⟩ := Option.bind_eq_some_iff.mp (Option.mem_toList.mp hmem)
      exact hother (relation_of_at? hat) (by decide)
    · exact hother (relation_of_mem_ofExcept hmem) (by decide)
    · exact hother (relation_of_mem_ofExcept hmem) (by decide)
    · exact hother (relation_of_mem_filterMap hmem) (by decide)
    · exact hother (relation_of_mem_filterMap hmem) (by decide)
    · cases hmem

/-! A chunk whose text is parsed to a copy of its part of the file -/

/-- The walk over the chunk is one over a copy of the tree. -/
structure HoldsCopy (chunk : Chunk) (root tree copy : SyntaxTree) : Prop where
  kind_root : root.kind = .root
  children_eq : root.children = [copy]
  copied : Copied tree.start.column tree.start.row tree copy
  grammatical : copy.Grammatical
  startLine_eq : chunk.startLine = tree.start.row + 1
  not_fileLevel : chunk.kind ≠ .fileLevel

theorem exists_holdsCopy {chunk : Chunk} {root tree : SyntaxTree}
    (hroot : root.IsModule) (hcopy : root.IsCopyOf tree)
    (htree : tree.Grammatical) (hline : chunk.startLine = tree.start.row + 1)
    (hkind : chunk.kind ≠ .fileLevel) : ∃ copy, HoldsCopy chunk root tree copy := by
  obtain ⟨copy, hchildren, hcopied⟩ := hcopy.exists_copied htree
  refine ⟨copy, hroot.kind_eq, hchildren, hcopied, hroot.grammatical.child ?_, hline, hkind⟩
  rw [hchildren]
  exact List.mem_singleton_self copy

namespace HoldsCopy

variable {chunk : Chunk} {root tree copy : SyntaxTree} (hholds : HoldsCopy chunk root tree copy)

include hholds

theorem getElem?_eq : root.children[0]? = some copy := by
  rw [hholds.children_eq]
  rfl

theorem at?_eq (site : List Nat) : root.at? (0 :: site) = copy.at? site := by
  rw [at?_cons, hholds.getElem?_eq]
  rfl

theorem isWithin_eq (site : List Nat) :
    root.isWithin .decorator (0 :: site) = tree.isWithin .decorator site := by
  rw [isWithin_child (by rw [hholds.kind_root]; decide) hholds.getElem?_eq,
    hholds.copied.isWithin_eq]

theorem definitionsAround_eq (site : List Nat) :
    root.definitionsAround (0 :: site) = copy.definitionsAround site := by
  rw [definitionsAround_cons hholds.getElem?_eq, if_neg (by rw [hholds.kind_root]; decide)]

theorem addresses_eq : root.addresses = [] :: tree.addresses.map (0 :: ·) := by
  have hcopied := hholds.copied.addresses_eq
  have hchildren := hholds.children_eq
  cases root with
  | node kind role start stop text children =>
      cases hchildren
      rw [addresses, addressesOfAll, addressesOfAll, List.append_nil, hcopied]

/-- A root makes no references. -/
theorem madeIn_nil (file : FileContext) : madeIn chunk file root [] = [] := by
  have hskipped : isSkipped (originOf chunk) 0 root.kind = false := by
    rw [hholds.kind_root]
    rfl
  rw [madeIn, referencesAt_nil hskipped, madeBy, hholds.kind_root]
  dsimp only
  rw [ofNode, hholds.kind_root]

theorem ofTree_eq (file : FileContext) :
    ofTree chunk file root =
      tree.addresses.flatMap fun site => madeIn chunk file root (0 :: site) := by
  rw [ofTree_eq_flatMap, hholds.addresses_eq, List.flatMap_cons, hholds.madeIn_nil,
    List.nil_append, List.flatMap_map]

theorem madeIn_of_isWithin (file : FileContext) {site : List Nat}
    (hwithin : tree.isWithin .decorator site = true) :
    madeIn chunk file root (0 :: site) = [] := by
  rw [madeIn]
  exact referencesAt_of_isWithin _ _ _ _ (by rw [hholds.isWithin_eq, hwithin])

/-- Outside of decorators, every node makes its references in the state of the arrival. -/
theorem madeIn_eq (file : FileContext) {site : List Nat} {moved : SyntaxTree}
    (hmoved : copy.at? site = some moved) (hreached : tree.isWithin .decorator site = false) :
    madeIn chunk file root (0 :: site) =
      madeBy (originOf chunk) (classIn chunk file root (0 :: site))
        (stateIn chunk file root (0 :: site)) moved := by
  have harrives : IsReached chunk root (0 :: site) :=
    ⟨by rw [hholds.isWithin_eq, hreached], fun hfile => absurd hfile hholds.not_fileLevel⟩
  rw [madeIn, referencesAt_eq_madeBy _ _ _ _ ((hholds.at?_eq site).trans hmoved)
    harrives.isPassedOver_eq]
  rfl

theorem filter_madeIn (file : FileContext) {site : List Nat} {node : SyntaxTree}
    (hnode : tree.at? site = some node) (hkind : node.kind ≠ .functionDefinition) :
    (madeIn chunk file root (0 :: site)).filter (·.relation != .usesType) =
      madeIn chunk file root (0 :: site) := by
  obtain ⟨moved, hmoved, hcopied⟩ := hholds.copied.exists_at? hnode
  cases hreached : tree.isWithin .decorator site with
  | true =>
      rw [hholds.madeIn_of_isWithin file hreached]
      rfl
  | false =>
      rw [hholds.madeIn_eq file hmoved hreached]
      refine List.filter_eq_self.mpr fun reference hmem => bne_iff_ne.mpr ?_
      exact relation_of_mem_madeBy (by rwa [← hcopied.kind_eq]) hmem

section Function

variable (file : FileContext) {site : List Nat} {node : SyntaxTree}
  (hnode : tree.at? site = some node) (hkind : node.kind = .functionDefinition)

include hnode hkind

/-- A function makes references with its signature only. -/
theorem madeIn_of_function_cases :
    madeIn chunk file root (0 :: site) = [] ∨
      (stateIn chunk file root (0 :: site)).signatureDue = true ∧
        ∀ reference ∈ madeIn chunk file root (0 :: site), reference.relation = .usesType := by
  obtain ⟨moved, hmoved, hcopied⟩ := hholds.copied.exists_at? hnode
  cases hreached : tree.isWithin .decorator site with
  | true => exact .inl (hholds.madeIn_of_isWithin file hreached)
  | false =>
      rw [hholds.madeIn_eq file hmoved hreached, madeBy, ← hcopied.kind_eq, hkind]
      dsimp only
      split
      · next hdue => exact .inr ⟨hdue, fun _ hmem => relation_of_mem_filterMap hmem⟩
      · exact .inl rfl

theorem filter_madeIn_of_function :
    (madeIn chunk file root (0 :: site)).filter (·.relation != .usesType) = [] := by
  rcases hholds.madeIn_of_function_cases file hnode hkind with hnone | ⟨-, htypes⟩
  · rw [hnone]
    rfl
  · refine List.filter_eq_nil_iff.mpr fun reference hmem => ?_
    rw [htypes reference hmem]
    decide

/-- A class reports no signature. -/
theorem madeIn_of_function (hclass : chunk.kind = .classDef) :
    madeIn chunk file root (0 :: site) = [] := by
  have hdone : (stateIn chunk file root (0 :: site)).signatureDue = false :=
    signatureDue_stateAt _ _ _ (by rw [hclass]; rfl) _ _
  rcases hholds.madeIn_of_function_cases file hnode hkind with hnone | ⟨hdue, -⟩
  · exact hnone
  · rw [hdone] at hdue
    cases hdue

end Function

/-- What is compared of the references at a node does not depend on the copy. -/
theorem map_rowOf_madeIn (file : FileContext) {site : List Nat} {node : SyntaxTree}
    (hnode : tree.at? site = some node) (hreached : tree.isWithin .decorator site = false)
    (hline : ¬ BreaksPath node) (hfunction : node.kind ≠ .functionDefinition) {other : Walk}
    (hfile : other.context.file = file)
    (htype : node.kind = .call → ∀ name, isAttributeKey name = false →
      (stateIn chunk file root (0 :: site)).context.typeOf? name = other.context.typeOf? name) :
    (madeIn chunk file root (0 :: site)).map (rowOf node) =
      (madeBy wholeFile (classIn chunk file root (0 :: site)) other node).map (rowOf node) := by
  obtain ⟨moved, hmoved, hcopied⟩ := hholds.copied.exists_at? hnode
  have horigin : (originOf chunk).startLine = tree.start.row + 1 := hholds.startLine_eq
  rw [hholds.madeIn_eq file hmoved hreached]
  exact map_rowOf_madeBy hcopied horigin ((file_stateIn chunk file root _).trans hfile.symm) htype
    (hholds.grammatical.of_at? hmoved) hline hfunction _

/-- The class around a node of the copy has the name that it has in the file. -/
theorem ownerAt?_eq (site : List Nat) :
    ownerAt? chunk root (0 :: site) = ownerAt? chunk tree site := by
  have hclass : ∀ {one other}, Copied tree.start.column tree.start.row one other →
      (one.kind == .classDefinition) = (other.kind == .classDefinition) :=
    fun hsame => by rw [hsame.kind_eq]
  rw [ownerAt?, ownerAt?, classAround?, classAround?, hholds.definitionsAround_eq]
  rcases rel_cases (rel_find? (hholds.copied.definitionsAround site) hclass) with
    ⟨hnone, hnone'⟩ | ⟨one, other, hone, hother, hkind, hsame⟩
  · rw [hnone, hnone']
  · rw [hone, hother]
    refine (hsame.name_of_isDefinition ?_).symm
    rw [eq_of_beq hkind]
    rfl

/-- The scopes that are open at a node are those of the tree. -/
theorem typeOf?_eq (hhides : isApart tree.kind = true) {name : String}
    (hplain : isAttributeKey name = false) (file : FileContext) {site : List Nat}
    {moved : SyntaxTree} (hmoved : copy.at? site = some moved) :
    (stateIn chunk file root (0 :: site)).context.typeOf? name =
      firstGiven? ((tree.definitionsAround site).map (treeGives file.imports name) ++
        [(.topLevel, none)]) := by
  have htop : treeGives file.imports name root = (.topLevel, none) := by
    have hcopy : ownNodes copy = [] := ownNodes_of_isApart (by rwa [← hholds.copied.kind_eq])
    rw [treeGives, treeScopeKind, scopeType?, lastWrite?, hholds.kind_root, hholds.children_eq,
      ownNodesOfAll, ownNodesOfAll, hcopy]
    rfl
  rw [typeOf?_stateIn hplain chunk file hholds.kind_root ((hholds.at?_eq site).trans hmoved),
    seenType?_eq_firstGiven?, List.map_append, hholds.definitionsAround_eq,
    ← map_treeGives_of_copied _ _ (hholds.copied.definitionsAround site), List.map_cons, htop,
    List.map_nil]

end HoldsCopy

/-- A class body counts only directly inside of it. -/
theorem firstGiven?_of_classBody {inner : List (ScopeKind × Option String)} (hinner : inner ≠ [])
    (type : Option String) (outer : List (ScopeKind × Option String)) :
    firstGiven? (inner ++ (.classBody, type) :: outer) = firstGiven? (inner ++ outer) := by
  cases inner with
  | nil => exact absurd rfl hinner
  | cons first rest => simp [firstGiven?]

/-! A method in the walk over its own chunk and in the walk over the class -/

section Agreement

variable {whole : SyntaxTree} {member : ClassMember whole} (hwhole : whole.Grammatical)
  {owner chunk : Chunk} {ownerRoot ownerCopy root copy : SyntaxTree}
  (howner : HoldsCopy owner ownerRoot member.statement ownerCopy)
  (hchunk : HoldsCopy chunk root member.tree copy)
  {site : List Nat} {node : SyntaxTree} (hnode : member.tree.at? site = some node)

include hwhole howner hchunk hnode

/-- Variables have the same types on both ways. -/
theorem typeOf?_of_member {method : SyntaxTree} (hmethod : definitionOf? member.tree = some method)
    (hcall : node.kind = .call) (hreached : member.tree.isWithin .decorator site = false)
    (context : FileContext) {name : String} (hplain : isAttributeKey name = false) :
    (stateIn owner context ownerRoot (0 :: member.inside site)).context.typeOf? name =
      (stateIn chunk context root (0 :: site)).context.typeOf? name := by
  obtain ⟨moved, hmoved, -⟩ := hchunk.copied.exists_at? hnode
  obtain ⟨found, hfound, -⟩ := howner.copied.exists_at? ((member.at?_inside site).trans hnode)
  have hne := definitionsAround_ne_nil (member.grammatical_tree hwhole) hmethod hnode hcall hreached
  have hclass : treeGives context.imports name member.definition =
      (.classBody, scopeType? context.imports name member.definition) := by
    rw [treeGives, treeScopeKind, member.isClass]
  rw [howner.typeOf?_eq (isApart_of_definitionOf? member.definition_eq) hplain context hfound,
    hchunk.typeOf?_eq (isApart_of_definitionOf? hmethod) hplain context hmoved,
    member.definitionsAround_inside hwhole, List.map_append, List.map_cons, hclass, List.map_nil,
    List.append_assoc, List.singleton_append]
  exact firstGiven?_of_classBody (by simpa using hne) _ _

/-- The class around a node is the same on both ways. -/
theorem exists_classIn_of_member {name : SyntaxTree}
    (hname : member.definition.part? .name = some name)
    (hparent : chunk.parentName = some name.text) (context : FileContext) :
    ∃ current, classIn owner context ownerRoot (0 :: member.inside site) = some current ∧
      classIn chunk context root (0 :: site) = some current := by
  obtain ⟨moved, hmoved, -⟩ := hchunk.copied.exists_at? hnode
  obtain ⟨found, hfound, -⟩ := howner.copied.exists_at? ((member.at?_inside site).trans hnode)
  have hsome : ∃ current, ownerAt? owner member.statement (member.inside site) = some current ∧
      ownerAt? chunk member.tree site = some current := by
    rw [ownerAt?, ownerAt?, member.classAround?_inside hwhole]
    cases hclass : member.tree.classAround? site with
    | none =>
        have hne : name.text ≠ "" := by
          obtain ⟨other, hother, -, hne⟩ :=
            (member.grammatical_definition hwhole).formed.exists_name (by rw [member.isClass]; rfl)
          cases hname.symm.trans hother
          exact hne
        exact ⟨name.text, by simp [hname], by simp [hparent, hne]⟩
    | some inner =>
        have hmem := List.mem_of_find?_eq_some hclass
        obtain ⟨hgrammatical, hdefinition⟩ :=
          forall_mem_definitionsAround (member.grammatical_tree hwhole) site inner hmem
        obtain ⟨label, hlabel⟩ := exists_name_of_isDefinition hgrammatical hdefinition
        exact ⟨label.text, by simp [hlabel], by simp [hlabel]⟩
  obtain ⟨current, hcurrent, hcurrent'⟩ := hsome
  exact ⟨current,
    classIn_of_ownerAt? ((howner.at?_eq _).trans hfound) ((howner.ownerAt?_eq _).trans hcurrent) _,
    classIn_of_ownerAt? ((hchunk.at?_eq _).trans hmoved) ((hchunk.ownerAt?_eq _).trans hcurrent') _⟩

/-- Every node of a method makes the same references in both chunks. -/
theorem map_rowOf_member {method name : SyntaxTree}
    (hmethod : definitionOf? member.tree = some method)
    (hname : member.definition.part? .name = some name)
    (hparent : chunk.parentName = some name.text) (hkind : owner.kind = .classDef)
    (hline : ¬ BreaksPath node) (context : FileContext) :
    ((madeIn chunk context root (0 :: site)).filter (·.relation != .usesType)).map (rowOf node) =
      (madeIn owner context ownerRoot (0 :: member.inside site)).map (rowOf node) := by
  have hinside := (member.at?_inside site).trans hnode
  have hsame := member.isWithin_inside hwhole site
  by_cases hfunction : node.kind = .functionDefinition
  · rw [hchunk.filter_madeIn_of_function context hnode hfunction,
      howner.madeIn_of_function context hinside hfunction hkind]
  rw [hchunk.filter_madeIn context hnode hfunction]
  cases hreached : member.tree.isWithin .decorator site with
  | true =>
      rw [hchunk.madeIn_of_isWithin context hreached,
        howner.madeIn_of_isWithin context (hsame.trans hreached)]
  | false =>
      obtain ⟨current, hcurrent, hcurrent'⟩ :=
        exists_classIn_of_member hwhole howner hchunk hnode hname hparent context
      have hfile := file_stateIn chunk context root (0 :: site)
      rw [hchunk.map_rowOf_madeIn context hnode hreached hline hfunction hfile fun _ _ _ => rfl,
        howner.map_rowOf_madeIn context hinside (hsame.trans hreached) hline hfunction hfile
          fun hcall _ hplain => typeOf?_of_member hwhole howner hchunk hnode hmethod hcall
            hreached context hplain,
        hcurrent, hcurrent']

end Agreement

/-- A class and its method are chunks of the file. -/
theorem mem_ofTree_of_member {whole : SyntaxTree} (member : ClassMember whole)
    {name method label : SyntaxTree} (hname : member.definition.part? .name = some name)
    (hmethod : definitionOf? member.tree = some method) (hkind : method.kind = .functionDefinition)
    (hlabel : method.part? .name = some label) (file path source : String) :
    let owner := Chunk.ofDefinition file path .classDef member.statement name.text none
    owner ∈ Chunk.ofTree file path source whole ∧
      Chunk.ofDefinition file path .method member.tree label.text (some (name.text, owner.id)) ∈
        Chunk.ofTree file path source whole := by
  intro owner
  have hchunks : Chunk.ofStatement file path member.statement =
      owner :: Chunk.methodsOf file path (name.text, owner.id) member.definition := by
    simp only [Chunk.ofStatement, member.definition_eq, hname, member.isClass]
    rfl
  have hlisted : ∀ chunk ∈ owner :: Chunk.methodsOf file path (name.text, owner.id)
      member.definition, chunk ∈ Chunk.ofTree file path source whole := by
    intro chunk hchunk
    rw [← hchunks] at hchunk
    exact List.mem_append_right _
      (List.mem_flatMap.mpr ⟨_, List.mem_of_getElem? member.statement_eq, hchunk⟩)
  refine ⟨hlisted owner List.mem_cons_self, hlisted _ (List.mem_cons_of_mem _ ?_)⟩
  rw [Chunk.methodsOf, member.body_eq]
  exact List.mem_filterMap.mpr
    ⟨member.tree, List.mem_of_getElem? member.tree_eq, by simp [hmethod, hkind, hlabel]⟩

/-- What is compared of the references that the nodes of a tree make, node by node. -/
def rowsOf (tree : SyntaxTree) (made : List Nat → List Reference) :
    List (Relation × Option String × Nat × Bool) :=
  tree.addresses.flatMap fun site =>
    (tree.at? site).toList.flatMap fun node => (made site).map (rowOf node)

/-- The chunk of a method and the chunk of its class make the same references at the nodes of the
method, on the same lines, if their texts are parsed to their parts of the file.  Only the method
has the types of its signature; only the class decides about the targets of calls on `super()` and
on attributes of `self` and `cls`; and a path that is written over several lines is not compared. -/
theorem method_agrees_with_class {file path source : String} {whole : SyntaxTree}
    (hwhole : whole.Grammatical) (member : ClassMember whole)
    {name method label ownerRoot root : SyntaxTree}
    (hname : member.definition.part? .name = some name)
    (hmethod : definitionOf? member.tree = some method) (hkind : method.kind = .functionDefinition)
    (hlabel : method.part? .name = some label) (context : FileContext) :
    let owner := Chunk.ofDefinition file path .classDef member.statement name.text none
    let chunk := Chunk.ofDefinition file path .method member.tree label.text
      (some (name.text, owner.id))
    ownerRoot.IsModule → ownerRoot.IsCopyOf member.statement →
    root.IsModule → root.IsCopyOf member.tree →
      let inClass := fun site => madeIn owner context ownerRoot (0 :: member.inside site)
      let inMethod := fun site =>
        (madeIn chunk context root (0 :: site)).filter (·.relation != .usesType)
      owner ∈ Chunk.ofTree file path source whole ∧ chunk ∈ Chunk.ofTree file path source whole ∧
        (∃ before after, ofTree owner context ownerRoot =
          before ++ member.tree.addresses.flatMap inClass ++ after) ∧
        (ofTree chunk context root).filter (·.relation != .usesType) =
          member.tree.addresses.flatMap inMethod ∧
        (∀ site node, member.tree.at? site = some node → ¬ BreaksPath node →
          (inMethod site).map (rowOf node) = (inClass site).map (rowOf node)) ∧
        ((∀ node ∈ member.tree.preorder, ¬ BreaksPath node) →
          rowsOf member.tree inMethod = rowsOf member.tree inClass) := by
  intro owner chunk hownerRoot hownerCopy hroot hcopy inClass inMethod
  have hstatement := hwhole.child (List.mem_of_getElem? member.statement_eq)
  obtain ⟨ownerTree, howner⟩ : ∃ copy, HoldsCopy owner ownerRoot member.statement copy :=
    exists_holdsCopy hownerRoot hownerCopy hstatement rfl fun hfile => by cases hfile
  obtain ⟨tree, hchunk⟩ : ∃ copy, HoldsCopy chunk root member.tree copy :=
    exists_holdsCopy hroot hcopy (member.grammatical_tree hwhole) rfl fun hfile => by cases hfile
  obtain ⟨hlisted, hlisted'⟩ :=
    mem_ofTree_of_member member hname hmethod hkind hlabel file path source
  have hrows : ∀ site node, member.tree.at? site = some node → ¬ BreaksPath node →
      (inMethod site).map (rowOf node) = (inClass site).map (rowOf node) :=
    fun site node hnode hline => map_rowOf_member hwhole howner hchunk hnode hmethod hname rfl
      rfl hline context
  refine ⟨hlisted, hlisted', ?_, ?_, hrows, fun hlines => ?_⟩
  · obtain ⟨before, after, hsites⟩ := exists_addresses (member.at?_inside [])
    refine ⟨before.flatMap fun site => madeIn owner context ownerRoot (0 :: site),
      after.flatMap fun site => madeIn owner context ownerRoot (0 :: site), ?_⟩
    rw [howner.ofTree_eq context, hsites, List.flatMap_append, List.flatMap_append,
      List.flatMap_map]
    simp only [member.inside_nil_append, inClass]
  · rw [hchunk.ofTree_eq context, List.filter_flatMap]
  · refine List.flatMap_congr fun site _ => ?_
    cases hnode : member.tree.at? site with
    | none => rfl
    | some node =>
        rw [Option.toList_some, List.flatMap_singleton, List.flatMap_singleton]
        exact hrows site node hnode (hlines node (mem_preorder_of_at? hnode))

/-- A method with a signature.  What the attribute is bound to is known to the class only. -/
theorem method_agrees_with_class_on_attribute :
    let source := "class A:\n def i(self):\n  self.y = Y()\n def m(self, x: C):\n  self.y.g(x.f())"
    ∃ whole, parse? source = some whole ∧ ∃ member : ClassMember whole,
      let owner := Chunk.ofDefinition "m.py" "m.py" .classDef member.statement "A" none
      let chunk := Chunk.ofDefinition "m.py" "m.py" .method member.tree "m" (some ("A", owner.id))
      ∃ ownerRoot root, parse? owner.content = some ownerRoot ∧ parse? chunk.content = some root ∧
        ownerRoot.IsCopyOf member.statement ∧ root.IsCopyOf member.tree ∧
        (ofTree owner (.ofText source) ownerRoot).map Reference.target = ["Y", "Y.g", "C.f"] ∧
        (ofTree chunk (.ofText source) root).map Reference.target = ["C", "g", "C.f"] ∧
        rowsOf member.tree (fun site => (madeIn chunk (.ofText source) root (0 :: site)).filter
            (·.relation != .usesType)) =
          rowsOf member.tree
            (fun site => madeIn owner (.ofText source) ownerRoot (0 :: member.inside site)) := by
  intro source
  have hshape : (do
      let whole ← parse? source
      let statement ← whole.children[0]?
      let definition ← definitionOf? statement
      let name ← definition.part? .name
      let body ← definition.part? .body
      let tree ← body.children[1]?
      let method ← definitionOf? tree
      let label ← method.part? .name
      let owner := Chunk.ofDefinition "m.py" "m.py" .classDef statement "A" none
      let chunk := Chunk.ofDefinition "m.py" "m.py" .method tree "m" (some ("A", owner.id))
      let ownerRoot ← parse? owner.content
      let root ← parse? chunk.content
      pure ([definition.kind, method.kind], [name.text, label.text],
        [decide (ownerRoot.IsCopyOf statement), decide (root.IsCopyOf tree),
          decide (∀ node ∈ tree.preorder, ¬ BreaksPath node)],
        [(ofTree owner (.ofText source) ownerRoot).map Reference.target,
          (ofTree chunk (.ofText source) root).map Reference.target])) =
      some ([.classDefinition, .functionDefinition], ["A", "m"], [true, true, true],
        [["Y", "Y.g", "C.f"], ["C", "g", "C.f"]]) := by
    decide +kernel
  simp only [Option.bind_eq_bind, Option.bind_eq_some_iff, Option.pure_def, Option.some.injEq,
    Prod.mk.injEq, List.cons.injEq, and_true, decide_eq_true_eq] at hshape
  obtain ⟨whole, hwhole, statement, hstatement, definition, hdefinition, name, hname, body, hbody,
    tree, htree, method, hmethod, label, hlabel, ownerRoot, hownerRoot, root, hroot,
    ⟨hclass, hfunction⟩, ⟨hA, hm⟩, ⟨hownerCopy, hcopy, hlines⟩, htargets, htargets'⟩ := hshape
  let member : ClassMember whole :=
    { index := 0, statement, definition, body, position := 1, tree
      statement_eq := hstatement, definition_eq := hdefinition, isClass := hclass
      body_eq := hbody, tree_eq := htree }
  have hagrees := @method_agrees_with_class "m.py" "m.py" source whole
    (grammatical_of_parse hwhole) member name method label ownerRoot root hname hmethod hfunction
    hlabel (.ofText source)
  rw [hA, hm] at hagrees
  obtain ⟨-, -, -, -, -, hrows⟩ := hagrees (isModule_of_parse hownerRoot) hownerCopy
    (isModule_of_parse hroot) hcopy
  exact ⟨whole, hwhole, member, ownerRoot, root, hownerRoot, hroot, hownerCopy, hcopy, htargets,
    htargets', hrows hlines⟩

/-- An import in a method that breaks a path at a dot.  Outdenting takes blanks out of the path. -/
theorem outdented_import_names_other_path :
    let source := "class A:\n def m(self):\n  import a.\\\n   b"
    ∃ whole, parse? source = some whole ∧ ∃ member : ClassMember whole,
      let owner := Chunk.ofDefinition "m.py" "m.py" .classDef member.statement "A" none
      let chunk := Chunk.ofDefinition "m.py" "m.py" .method member.tree "m" (some ("A", owner.id))
      ∃ ownerRoot root, parse? owner.content = some ownerRoot ∧ parse? chunk.content = some root ∧
        ownerRoot.IsCopyOf member.statement ∧ root.IsCopyOf member.tree ∧
        (ofTree owner (.ofText source) ownerRoot).map Reference.target = ["a.\\\n   b"] ∧
        (ofTree chunk (.ofText source) root).map Reference.target = ["a.\\\n  b"] := by
  intro source
  have hshape : (do
      let whole ← parse? source
      let statement ← whole.children[0]?
      let definition ← definitionOf? statement
      let body ← definition.part? .body
      let tree ← body.children[0]?
      let owner := Chunk.ofDefinition "m.py" "m.py" .classDef statement "A" none
      let chunk := Chunk.ofDefinition "m.py" "m.py" .method tree "m" (some ("A", owner.id))
      let ownerRoot ← parse? owner.content
      let root ← parse? chunk.content
      pure (definition.kind,
        [decide (ownerRoot.IsCopyOf statement), decide (root.IsCopyOf tree)],
        [(ofTree owner (.ofText source) ownerRoot).map Reference.target,
          (ofTree chunk (.ofText source) root).map Reference.target])) =
      some (.classDefinition, [true, true], [["a.\\\n   b"], ["a.\\\n  b"]]) := by
    decide +kernel
  simp only [Option.bind_eq_bind, Option.bind_eq_some_iff, Option.pure_def, Option.some.injEq,
    Prod.mk.injEq, List.cons.injEq, and_true, decide_eq_true_eq] at hshape
  obtain ⟨whole, hwhole, statement, hstatement, definition, hdefinition, body, hbody, tree, htree,
    ownerRoot, hownerRoot, root, hroot, hclass, ⟨hownerCopy, hcopy⟩, htargets, htargets'⟩ := hshape
  let member : ClassMember whole :=
    { index := 0, statement, definition, body, position := 0, tree
      statement_eq := hstatement, definition_eq := hdefinition, isClass := hclass
      body_eq := hbody, tree_eq := htree }
  exact ⟨whole, hwhole, member, ownerRoot, root, hownerRoot, hroot, hownerCopy, hcopy, htargets,
    htargets'⟩

end Reference

end CodeGraph
