import CodeGraph.Proofs.Reference.PlainNames

namespace CodeGraph

open Syntax Names

/-! Variables that are constructed once.  The call of the class and the calls of methods on the
variable name the class through the imports, the former once and the latter twice. -/

namespace Names

/-- The call of a class by its name. -/
structure IsConstruction (construction : SyntaxTree) (className : String) : Prop where
  kind_eq : construction.kind = .call
  callee : ∃ callee, construction.part? .function = some callee ∧ callee.kind = .identifier ∧
    callee.text = className

theorem IsConstruction.constructedType?_eq {construction : SyntaxTree} {className : String}
    (hconstruction : IsConstruction construction className) (imports : Imports) :
    constructedType? imports construction = some (unalias imports className) := by
  obtain ⟨callee, hcallee, hkind, rfl⟩ := hconstruction.callee
  rw [constructedType?, if_pos hconstruction.kind_eq, hcallee]
  simp [hkind]

/-- An assignment such as `x = C(...)`, without a hint. -/
structure IsConstructing (statement : SyntaxTree) (name : String) (construction : SyntaxTree) :
    Prop where
  kind_eq : statement.kind = .assignment
  unhinted : statement.part? .type = none
  target : ∃ target, statement.part? .left = some target ∧ target.kind = .identifier ∧
    target.text = name
  value : statement.part? .right = some construction

theorem IsConstructing.write?_eq {statement construction : SyntaxTree} {name className : String}
    (hstatement : IsConstructing statement name construction)
    (hconstruction : IsConstruction construction className) (imports : Imports) :
    write? imports statement = some (name, unalias imports className) := by
  obtain ⟨target, htarget, hidentifier, rfl⟩ := hstatement.target
  have hkey : targetKey? target = some target.text := by
    rw [targetKey?, hidentifier]
  have hvalue : chainEndOf? statement.children = some construction := by
    have hright : (statement.children.find? fun child => child.role == some .right) =
        some construction := hstatement.value
    rw [chainEndOf?_eq, hright, Option.bind_some]
    exact chainEnd?_of_ne (by rw [hconstruction.kind_eq]; decide)
  rw [write?, hstatement.kind_eq]
  simp [assignmentWrite?, htarget, hkey, hintedType?, hstatement.unhinted, hvalue,
    hconstruction.constructedType?_eq imports]

/-- The only typed write to the variable in a scope is its construction. -/
structure IsConstructedOnce (imports : Imports) (scope : SyntaxTree) (name className : String)
    (construction : SyntaxTree) : Prop where
  isConstruction : IsConstruction construction className
  statement : ∃ statement ∈ ownNodesOfAll scope.children,
    IsConstructing statement name construction
  once : ((ownNodesOfAll scope.children).filterMap (write? imports)).countP
    (fun write => write.1 == name) = 1

theorem find?_reverse_of_countP {α : Type} {items : List α} {holds : α → Bool} {item : α}
    (honce : items.countP holds = 1) (hmem : item ∈ items) (hitem : holds item = true) :
    items.reverse.find? holds = some item := by
  rw [List.countP_eq_length_filter, List.length_eq_one_iff] at honce
  obtain ⟨only, honly⟩ := honce
  have hfilter : items.reverse.filter holds = [only] := by
    rw [List.filter_reverse, honly, List.reverse_singleton]
  have hitem : item ∈ items.filter holds := List.mem_filter.mpr ⟨hmem, hitem⟩
  rw [honly, List.mem_singleton] at hitem
  rw [← List.head?_filter, hfilter, hitem, List.head?_cons]

theorem IsConstructedOnce.lastWrite?_eq {imports : Imports} {scope construction : SyntaxTree}
    {name className : String}
    (honce : IsConstructedOnce imports scope name className construction) :
    lastWrite? imports name scope = some (unalias imports className) := by
  obtain ⟨statement, hmem, hstatement⟩ := honce.statement
  have hwrite := hstatement.write?_eq honce.isConstruction imports
  rw [lastWrite?, find?_reverse_of_countP honce.once
    (List.mem_filterMap.mpr ⟨statement, hmem, hwrite⟩) (beq_self_eq_true name)]
  rfl

theorem plainTarget_of_scopeType? {imports : Imports} {name type : String} {scope : SyntaxTree}
    (htype : scopeType? imports name scope = some type) (method : String)
    (outer : List SyntaxTree) :
    plainTarget imports name method (scope :: outer) = unalias imports type ++ "." ++ method := by
  rw [plainTarget, seenType?, List.findSome?_cons, htype]

end Names

namespace Reference

theorem madeIn_of_construction {chunk : Chunk} (file : FileContext)
    {root construction : SyntaxTree} {site : List Nat} {className : String}
    (hsite : root.at? site = some construction)
    (hconstruction : IsConstruction construction className) (hreached : IsReached chunk root site) :
    madeIn chunk file root site =
      (at? (originOf chunk) construction .calls false
        (unalias file.imports className)).toList := by
  obtain ⟨callee, hcallee, hkind, rfl⟩ := hconstruction.callee
  have hfunction : (construction.part? .function).bind callee? = some callee := by
    rw [hcallee]
    exact callee?_of_ne (by rw [hkind]; decide)
  have htarget : ∀ context current, callTarget? context current construction =
      some (context.unalias callee.text, false) := fun context current => by
    simp [callTarget?, hfunction, hkind]
  rw [madeIn_of_call file hsite hconstruction.kind_eq hreached]
  simp only [ofCall, htarget]
  rw [Context.unalias, file_stateIn]

/-- The body of a function that the walk over a chunk reaches, at its address in the chunk. -/
structure IsFunctionBody (chunk : Chunk) (root : SyntaxTree) (place : List Nat)
    (function body : SyntaxTree) : Prop where
  function_eq : root.at? place = some function
  kind_eq : function.kind = .functionDefinition
  body_eq : function.part? .body = some body
  isReached : IsReached chunk root place

section FunctionBody

variable {chunk : Chunk} {root function body : SyntaxTree} {place : List Nat}
variable (hbody : IsFunctionBody chunk root place function body)

include hbody

theorem IsFunctionBody.at?_eq (rest : List Nat) :
    root.at? (place ++ (function.placeOf .body ++ rest)) = body.at? rest := by
  rw [SyntaxTree.at?_append, hbody.function_eq, Option.bind_some, SyntaxTree.at?_append,
    SyntaxTree.at?_placeOf hbody.body_eq, Option.bind_some]

theorem IsFunctionBody.reached (hroot : root.kind = .root) {rest : List Nat}
    (hrest : body.isWithin .decorator rest = false) :
    IsReached chunk root (place ++ (function.placeOf .body ++ rest)) := by
  have hplace : place ≠ [] := by
    rintro rfl
    cases hbody.function_eq
    rw [hbody.kind_eq] at hroot
    cases hroot
  refine hbody.isReached.append hplace hbody.function_eq ?_
  rw [SyntaxTree.isWithin_placeOf (by rw [hbody.kind_eq]; decide) hbody.body_eq]
  exact hrest

theorem IsFunctionBody.definitionsAround_eq {rest : List Nat}
    (hdirect : body.definitionsAround rest = []) :
    root.definitionsAround (place ++ (function.placeOf .body ++ rest)) =
      function :: root.definitionsAround place := by
  obtain ⟨index, hindex, hchild⟩ := SyntaxTree.placeOf_of_part? hbody.body_eq
  rw [hindex, List.singleton_append]
  exact SyntaxTree.definitionsAround_inside hbody.function_eq (by rw [hbody.kind_eq]; rfl) hchild
    hdirect

/-- A method call on a variable that is constructed once in the body.  The type that the
construction gives the variable is looked up in the imports again. -/
theorem IsFunctionBody.madeIn_of_constructed (file : FileContext)
    (hroot : root.IsModule) {construction call receiver : SyntaxTree}
    {className method : String}
    (honce : IsConstructedOnce file.imports body receiver.text className construction)
    {rest : List Nat} (hcall : body.at? rest = some call)
    (hmethod : IsMethodCall call receiver method) (hname : receiver.kind = .identifier)
    (hself : receiver.text ≠ "self") (hcls : receiver.text ≠ "cls")
    (hdirect : body.definitionsAround rest = [])
    (hdecorator : body.isWithin .decorator rest = false) :
    madeIn chunk file root (place ++ (function.placeOf .body ++ rest)) =
      [callReference chunk call
        (unalias file.imports (unalias file.imports className) ++ "." ++ method) true] := by
  -- a parameter of the same name gives way to the write in the body
  have htype : scopeType? file.imports receiver.text function =
      some (unalias file.imports className) := by
    rw [scopeType?, hbody.kind_eq, hbody.body_eq, Option.bind_some, honce.lastWrite?_eq,
      Option.some_or]
  have hmade := madeIn_of_plain file hroot ((hbody.at?_eq rest).trans hcall) hmethod hname hself
    hcls (hbody.reached hroot.kind_eq hdecorator)
  rwa [hbody.definitionsAround_eq hdirect, List.cons_append, plainTarget_of_scopeType? htype]
    at hmade

end FunctionBody

/-- Where a variable has one typed write `x = C(...)` in the body of a function, the call of `C`
refers to the class that `C` imports and the calls `x.m()` directly in the body refer to the
method of what the name of that class imports in its turn.  The two agree exactly where the name
of the class imports nothing else. -/
theorem construction_and_method_calls {chunk : Chunk} (file : FileContext)
    {root function body construction : SyntaxTree} {place : List Nat} {name className : String}
    (hroot : root.IsModule) (hbody : IsFunctionBody chunk root place function body)
    (hself : name ≠ "self") (hcls : name ≠ "cls")
    (honce : IsConstructedOnce file.imports body name className construction) :
    let type := unalias file.imports className
    let siteOf := fun rest => place ++ (function.placeOf .body ++ rest)
    ofTree chunk file root = root.addresses.flatMap (madeIn chunk file root) ∧
      (∀ rest, body.at? rest = some construction → body.isWithin .decorator rest = false →
        madeIn chunk file root (siteOf rest) =
          (at? (originOf chunk) construction .calls false type).toList) ∧
      ∀ rest call receiver method, body.at? rest = some call → IsMethodCall call receiver method →
        receiver.kind = .identifier → receiver.text = name → body.definitionsAround rest = [] →
        body.isWithin .decorator rest = false →
          let target := unalias file.imports type ++ "." ++ method
          madeIn chunk file root (siteOf rest) = [callReference chunk call target true] ∧
            callReference chunk call target true ∈ ofTree chunk file root ∧
            (target = type ++ "." ++ method ↔ unalias file.imports type = type) := by
  intro type siteOf
  refine ⟨ofTree_eq_flatMap chunk file root, fun rest hrest hdecorator => ?_, ?_⟩
  · exact madeIn_of_construction file ((hbody.at?_eq rest).trans hrest) honce.isConstruction
      (hbody.reached hroot.kind_eq hdecorator)
  · rintro rest call receiver method hcall hmethod hidentifier rfl hdirect hdecorator target
    have hmade := hbody.madeIn_of_constructed file hroot honce hcall hmethod hidentifier hself hcls
      hdirect hdecorator
    refine ⟨hmade, mem_ofTree_of_madeIn ((hbody.at?_eq rest).trans hcall) ?_, ?_⟩
    · rw [hmade]
      exact List.mem_singleton_self _
    · simp only [target, String.append_assoc, String.append_left_inj]

/-! A function that constructs a variable and calls a method of it -/

def constructingFunction : Chunk :=
  { id := "a", name := "f", kind := .function, file := "a.py", path := "a.py",
    language := "python", startLine := 1, endLine := 3, content := "def f():\n x = C()\n x.m()" }

structure IsConstructingBody (imports : Imports) (root function body construction call receiver :
    SyntaxTree) : Prop where
  root_eq : parse? constructingFunction.content = some root
  isBody : IsFunctionBody constructingFunction root [0] function body
  once : IsConstructedOnce imports body "x" "C" construction
  construction_eq : body.at? [0, 0, 2] = some construction
  call_eq : body.at? [1, 0] = some call
  isMethodCall : IsMethodCall call receiver "m"
  identifier : receiver.kind = .identifier
  name : receiver.text = "x"
  direct : body.definitionsAround [1, 0] = []
  construction_reached : body.isWithin .decorator [0, 0, 2] = false
  call_reached : body.isWithin .decorator [1, 0] = false

theorem exists_isConstructingBody (imports : Imports)
    (honce : (do
      let root ← parse? constructingFunction.content
      let function ← root.at? [0]
      let body ← function.part? .body
      pure (((ownNodesOfAll body.children).filterMap (write? imports)).countP
        fun write => write.1 == "x")) = some 1) :
    ∃ root function body construction call receiver,
      IsConstructingBody imports root function body construction call receiver := by
  have hfunction : (do
      let root ← parse? constructingFunction.content
      let function ← root.at? [0]
      let body ← function.part? .body
      pure (function.kind, root.isWithin .decorator [0])) =
      some (.functionDefinition, false) := by
    decide +kernel
  have hbuilt : (do
      let root ← parse? constructingFunction.content
      let function ← root.at? [0]
      let body ← function.part? .body
      let statement ← body.at? [0, 0]
      let target ← statement.part? .left
      let construction ← statement.part? .right
      let builder ← construction.part? .function
      pure ([statement.kind, target.kind, construction.kind, builder.kind],
        [target.text, builder.text],
        [(statement.part? .type).isNone, body.at? [0, 0, 2] == some construction,
          decide (statement ∈ ownNodesOfAll body.children), !body.isWithin .decorator [0, 0, 2]])) =
      some ([.assignment, .identifier, .call, .identifier], ["x", "C"],
        [true, true, true, true]) := by
    decide +kernel
  have hcalled : (do
      let root ← parse? constructingFunction.content
      let function ← root.at? [0]
      let body ← function.part? .body
      let call ← body.at? [1, 0]
      let callee ← call.part? .function
      let receiver ← callee.part? .object
      let member ← callee.part? .member
      pure ([call.kind, callee.kind, receiver.kind], [receiver.text, member.text],
        [(body.definitionsAround [1, 0]).isEmpty, !body.isWithin .decorator [1, 0]])) =
      some ([.call, .memberAccess, .identifier], ["x", "m"], [true, true]) := by
    decide +kernel
  simp only [Option.bind_eq_bind, Option.bind_eq_some_iff, Option.pure_def, Option.some.injEq,
    Prod.mk.injEq] at hfunction
  obtain ⟨root, hroot, function, hfunction, body, hbody, hdefinition, hplain⟩ := hfunction
  simp only [hroot, hfunction, hbody, Option.bind_eq_bind, Option.bind_some,
    Option.bind_eq_some_iff, Option.pure_def, Option.some.injEq, Prod.mk.injEq, List.cons.injEq,
    and_true, Bool.not_eq_true', decide_eq_true_eq, Option.isNone_iff_eq_none, List.isEmpty_iff,
    beq_iff_eq] at hbuilt hcalled honce
  obtain ⟨statement, hstatement, target, htarget, construction, hconstruction, builder, hbuilder,
    ⟨hassignment, hleft, hright, hnamed⟩, ⟨hx, hC⟩, hhint, hplace, hmem, hbuilt⟩ := hbuilt
  obtain ⟨call, hcall, callee, hcallee, receiver, hreceiver, member, hmember,
    ⟨hkind, haccess, hidentifier⟩, ⟨hname, hm⟩, hdirect, hcalled⟩ := hcalled
  exact ⟨root, function, body, construction, call, receiver,
    { root_eq := hroot
      isBody := ⟨hfunction, hdefinition, hbody, hplain, fun hfile => by cases hfile⟩
      once := ⟨⟨hright, builder, hbuilder, hnamed, hC⟩,
        ⟨statement, hmem, hassignment, hhint, ⟨target, htarget, hleft, hx⟩, hconstruction⟩, honce⟩
      construction_eq := hplace
      call_eq := hcall
      isMethodCall := ⟨hkind, callee, member, hcallee, haccess, hreceiver, hmember, hm⟩
      identifier := hidentifier
      name := hname
      direct := hdirect
      construction_reached := hbuilt
      call_reached := hcalled }⟩

/-- The class has another name where it comes from, and that name imports nothing here. -/
theorem construction_and_method_calls_by_alias :
    let file := FileContext.ofText "from a import X as C"
    ∃ root function body construction call receiver,
      IsConstructingBody file.imports root function body construction call receiver ∧
      madeIn constructingFunction file root ([0] ++ (function.placeOf .body ++ [0, 0, 2])) =
        [callReference constructingFunction construction "X" false] ∧
      madeIn constructingFunction file root ([0] ++ (function.placeOf .body ++ [1, 0])) =
        [callReference constructingFunction call "X.m" true] := by
  intro file
  have hclass : unalias file.imports "C" = "X" := by decide +kernel
  have hfixed : unalias file.imports "X" = "X" := by decide +kernel
  obtain ⟨root, function, body, construction, call, receiver, hparts⟩ :=
    exists_isConstructingBody file.imports (by decide +kernel)
  obtain ⟨-, hbuilt, hcalled⟩ := construction_and_method_calls file
    (isModule_of_parse hparts.root_eq) hparts.isBody (by decide) (by decide) hparts.once
  have hbuilt := hbuilt _ hparts.construction_eq hparts.construction_reached
  obtain ⟨hcalled, -, hagree⟩ := hcalled _ _ _ _ hparts.call_eq hparts.isMethodCall
    hparts.identifier hparts.name hparts.direct hparts.call_reached
  rw [hagree.mpr (by rw [hclass, hfixed]), hclass] at hcalled
  rw [hclass] at hbuilt
  exact ⟨root, function, body, construction, call, receiver, hparts, hbuilt, hcalled⟩

/-- The name that the class has where it comes from imports another class here, and the calls
disagree. -/
theorem construction_and_method_calls_apart :
    let file := FileContext.ofText "from a import X as C\nfrom b import Y as X"
    ∃ root function body construction call receiver,
      IsConstructingBody file.imports root function body construction call receiver ∧
      madeIn constructingFunction file root ([0] ++ (function.placeOf .body ++ [0, 0, 2])) =
        [callReference constructingFunction construction "X" false] ∧
      madeIn constructingFunction file root ([0] ++ (function.placeOf .body ++ [1, 0])) =
        [callReference constructingFunction call "Y.m" true] := by
  intro file
  have hclass : unalias file.imports "C" = "X" := by decide +kernel
  have hother : unalias file.imports "X" = "Y" := by decide +kernel
  obtain ⟨root, function, body, construction, call, receiver, hparts⟩ :=
    exists_isConstructingBody file.imports (by decide +kernel)
  have hbuilt := madeIn_of_construction file
    ((hparts.isBody.at?_eq _).trans hparts.construction_eq) hparts.once.isConstruction
    (hparts.isBody.reached (kind_of_parse hparts.root_eq) hparts.construction_reached)
  have hcalled := hparts.isBody.madeIn_of_constructed file (isModule_of_parse hparts.root_eq)
    (hparts.name.symm ▸ hparts.once) hparts.call_eq hparts.isMethodCall hparts.identifier
    (by rw [hparts.name]; decide) (by rw [hparts.name]; decide) hparts.direct hparts.call_reached
  rw [hclass] at hbuilt
  rw [hclass, hother] at hcalled
  exact ⟨root, function, body, construction, call, receiver, hparts, hbuilt, hcalled⟩

end Reference

end CodeGraph
