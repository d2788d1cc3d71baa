import CodeGraph.Proofs.Chunk.Places
import CodeGraph.Proofs.Names.Outline
import CodeGraph.Proofs.Reference.SelfCalls
import CodeGraph.Proofs.Syntax.Parse

namespace CodeGraph

open Syntax Names

/-! Methods that are called on `super()`.  The class around the call is asked for its first base by
its name, which stands for the last class so named in the chunk or, where the chunk has none, in
the file. -/

namespace Names

def isClassNamed (name : String) (tree : SyntaxTree) : Bool :=
  tree.kind == .classDefinition && (tree.part? .name).map SyntaxTree.text == some name

/-- The last class of that name in a tree, nested ones included. -/
def lastClass? (name : String) (root : SyntaxTree) : Option SyntaxTree :=
  root.preorder.reverse.find? (isClassNamed name)

theorem exists_name_of_isClassNamed {name : String} {tree : SyntaxTree}
    (hnamed : isClassNamed name tree = true) :
    tree.kind = .classDefinition ∧ ∃ part, tree.part? .name = some part ∧ part.text = name := by
  simpa [isClassNamed] using hnamed

/-- The bases of a name are those of the last class that has it. -/
theorem get?_classBases (imports : Imports) (root : SyntaxTree) (name : String) :
    (classBases imports root).get? name =
      (lastClass? name root).map (baseClasses imports) := by
  rw [classBases, NameMap.get?_ofList, lastClass?, ← List.filterMap_reverse, ← List.filter_reverse,
    List.find?_filterMap, List.find?_filter]
  have hnamed : (fun tree : SyntaxTree => decide (tree.kind == .classDefinition ∧
      ((tree.part? .name).map fun part => (part.text, baseClasses imports tree)).any
        (fun entry => entry.1 == name) = true)) = isClassNamed name := by
    funext tree
    rw [Bool.eq_iff_iff]
    cases hpart : tree.part? .name <;> simp [isClassNamed, hpart]
  rw [hnamed]
  cases hfound : root.preorder.reverse.find? (isClassNamed name) with
  | none => rfl
  | some definition =>
      obtain ⟨-, part, hpart, -⟩ := exists_name_of_isClassNamed (List.find?_some hfound)
      rw [Option.bind_some, hpart]
      rfl

/-- The class that a name stands for in a chunk with the tree `root` of the given file. -/
def classOf? (whole root : SyntaxTree) (name : String) : Option SyntaxTree :=
  (lastClass? name root).or (lastClass? name whole)

theorem FileContext.ofText_of_parse {source : String} {whole : SyntaxTree}
    (hwhole : parse? source = some whole) : FileContext.ofText source = .ofTree whole := by
  delta FileContext.ofText
  rw [hwhole]

end Names

namespace Reference

def IsSuperMethodCall (call : SyntaxTree) (method : String) : Prop :=
  ∃ receiver, IsMethodCall call receiver method ∧ receiver.kind = .call ∧
    isSuperCall receiver = true

theorem firstBase?_stateIn (whole : SyntaxTree) (chunk : Chunk) (root : SyntaxTree)
    (site : List Nat) (name : String) :
    (stateIn chunk (.ofTree whole) root site).context.firstBase? name =
      (classOf? whole root name).bind fun definition =>
        (baseClasses (importsOf whole) definition).head? := by
  have hsame := withoutScopes_stateIn chunk (.ofTree whole) root site
  refine (congrArg (Context.firstBase? · name) hsame).trans ?_
  rw [Context.firstBase?, Context.ofTree, FileContext.ofTree]
  dsimp only
  rw [get?_classBases, get?_classBases, Option.orElse_eq_or, ← Option.map_or, Option.bind_map]
  rfl

/-- The class that `super()` stands for in a chunk of the given file, where `name` is the class
around the call. -/
def superClass (whole root : SyntaxTree) (name : String) : String :=
  ((classOf? whole root name).bind fun definition =>
    (baseClasses (importsOf whole) definition).head?).getD "super"

theorem madeIn_of_super (whole : SyntaxTree) {chunk : Chunk} {root call : SyntaxTree}
    {site : List Nat} {method owner : String}
    (hcall : root.at? site = some call) (hsuper : IsSuperMethodCall call method)
    (hreached : IsReached chunk root site) (howner : ownerAt? chunk root site = some owner) :
    madeIn chunk (.ofTree whole) root site =
      [callReference chunk call (superClass whole root owner ++ "." ++ method) true] := by
  obtain ⟨receiver, hmethod, hkind, hreceiver⟩ := hsuper
  have htarget : methodTarget (stateIn chunk (.ofTree whole) root site).context
      (classIn chunk (.ofTree whole) root site) receiver method =
        superClass whole root owner ++ "." ++ method := by
    rw [methodTarget, classIn_of_ownerAt? hcall howner, receiverClass?, hkind]
    simp only [if_pos hreceiver, Option.bind_some]
    rw [firstBase?_stateIn]
    rfl
  rw [hmethod.madeIn_eq _ hcall hreached (by rw [htarget]; simp), htarget]

/-- The innermost class around a site of a chunk, which is `definition`: it lies in the chunk or,
for the chunk of a method, it is the class of the file that has the method. -/
inductive IsClassAround (file path : String) (whole : SyntaxTree) (chunk : Chunk)
    (root : SyntaxTree) (site : List Nat) (definition : SyntaxTree) : Prop
  | inside (hclass : root.classAround? site = some definition)
  | ofMethod {parent : String × String} (hnone : root.classAround? site = none)
      (hdefinition : definition ∈ whole.preorder) (hkind : definition.kind = .classDefinition)
      (hparent : (definition.part? .name).map SyntaxTree.text = some parent.1)
      (hchunk : chunk ∈ Chunk.methodsOf file path parent definition)

theorem parentName_of_mem_methodsOf {file path : String} {parent : String × String}
    {definition : SyntaxTree} {chunk : Chunk}
    (hchunk : chunk ∈ Chunk.methodsOf file path parent definition) :
    chunk.parentName = some parent.1 := by
  unfold Chunk.methodsOf at hchunk
  split at hchunk
  · cases hchunk
  · obtain ⟨member, -, hmember⟩ := List.mem_filterMap.mp hchunk
    obtain ⟨method, name, -, -, -, rfl⟩ := Chunk.methodOf?_eq_some_iff.mp hmember
    rfl

theorem IsClassAround.ownerAt?_eq {file path : String} {whole : SyntaxTree}
    (hwhole : whole.Grammatical) {chunk : Chunk} {root definition name : SyntaxTree}
    {site : List Nat} (hclass : IsClassAround file path whole chunk root site definition)
    (hname : definition.part? .name = some name) :
    ownerAt? chunk root site = some name.text := by
  rw [ownerAt?]
  cases hclass with
  | inside hinside =>
      rw [hinside]
      dsimp only
      rw [hname, Option.map_some]
  | ofMethod hnone hdefinition hkind hparent hchunk =>
      have hformed := hwhole definition hdefinition
      rw [SyntaxTree.Formed, hkind] at hformed
      obtain ⟨⟨other, hother, hne⟩, -⟩ := hformed
      cases hname.symm.trans hother
      rw [hname, Option.map_some, Option.some.injEq] at hparent
      rw [hnone, parentName_of_mem_methodsOf hchunk, ← hparent]
      simp [hne]

/-- A call such as `super().m()` refers to the method of the first base of the class that bears the
name of the class around it.  This is the class around it itself, unless another one so named comes
later in the chunk or, where the chunk has none, in the file. -/
theorem super_call_to_first_base {file path : String} {whole : SyntaxTree}
    (hwhole : whole.Grammatical) {chunk : Chunk} {root call definition name : SyntaxTree}
    {site : List Nat} {method : String} (hcall : root.at? site = some call)
    (hsuper : IsSuperMethodCall call method) (hreached : IsReached chunk root site)
    (hclass : IsClassAround file path whole chunk root site definition)
    (hname : definition.part? .name = some name) :
    let target := superClass whole root name.text ++ "." ++ method
    ofTree chunk (.ofTree whole) root =
        root.addresses.flatMap (madeIn chunk (.ofTree whole) root) ∧
      madeIn chunk (.ofTree whole) root site = [callReference chunk call target true] ∧
      callReference chunk call target true ∈ ofTree chunk (.ofTree whole) root ∧
      ∀ base bases, baseClasses (importsOf whole) definition = base :: bases →
        classOf? whole root name.text = some definition → target = base ++ "." ++ method := by
  intro target
  have hmade := madeIn_of_super whole hcall hsuper hreached (hclass.ownerAt?_eq hwhole hname)
  refine ⟨ofTree_eq_flatMap chunk _ root, hmade, mem_ofTree_of_madeIn hcall ?_, ?_⟩
  · rw [hmade]
    exact List.mem_singleton_self _
  · intro base bases hbases hfound
    simp only [target, superClass, hfound, Option.bind_some, hbases, List.head?_cons,
      Option.getD_some]

/-- A method of a class whose base has another name here than where it comes from, with a class
of another name behind it. -/
theorem super_call_to_imported_base :
    let source :=
      "from x import B as D\nclass A(D):\n def m(self):\n  super().m()\nclass E(C):\n pass"
    let site := [0, 4, 0, 0]
    ∃ whole definition chunk root call, parse? source = some whole ∧
      whole.children[1]? = some definition ∧
      (Chunk.methodsOf "a.py" "a.py" ("A", "a") definition).head? = some chunk ∧
      parse? chunk.content = some root ∧ root.at? site = some call ∧
      madeIn chunk (.ofText source) root site = [callReference chunk call "B.m" true] := by
  intro source site
  have hshape : (do
      let whole ← parse? source
      let definition : SyntaxTree ← whole.children[1]?
      let name ← definition.part? .name
      let chunk ← (Chunk.methodsOf "a.py" "a.py" ("A", "a") definition).head?
      let root ← parse? chunk.content
      let call ← root.at? site
      let callee ← call.part? .function
      let receiver ← callee.part? .object
      let member ← callee.part? .member
      pure ([definition.kind, call.kind, callee.kind, receiver.kind],
        [name.text, member.text], baseClasses (importsOf whole) definition,
        [isSuperCall receiver, root.isWithin .decorator site, (root.classAround? site).isNone,
          decide (classOf? whole root "A" = some definition)], chunk.kind)) =
      some ([.classDefinition, .call, .memberAccess, .call], ["A", "m"], ["B"],
        [true, false, true, true], .method) := by
    decide +kernel
  simp only [Option.bind_eq_bind, Option.bind_eq_some_iff, Option.pure_def, Option.some.injEq,
    Prod.mk.injEq, List.cons.injEq, and_true, decide_eq_true_eq, Option.isNone_iff_eq_none]
    at hshape
  obtain ⟨whole, hwhole, definition, hdefinition, name, hname, chunk, hchunk, root, hroot, call,
    hcall, callee, hcallee, receiver, hreceiver, member, hmember,
    ⟨hclass, hkind, haccess, hcalled⟩, ⟨hA, hm⟩, hbases, ⟨hsuper, hdecorator, hnone, hfound⟩,
    hmethod⟩ := hshape
  have hmem : definition ∈ whole.preorder := by
    cases whole
    rw [SyntaxTree.preorder_node]
    exact List.mem_cons_of_mem _ (SyntaxTree.mem_preorderAll.mpr
      ⟨definition, List.mem_of_getElem? hdefinition, by cases definition; simp⟩)
  have haround : IsClassAround "a.py" "a.py" whole chunk root site definition :=
    .ofMethod hnone hmem hclass (by rw [hname, Option.map_some, hA]) (List.mem_of_head? hchunk)
  have hreached : IsReached chunk root site :=
    ⟨hdecorator, fun hfile => by rw [hmethod] at hfile; cases hfile⟩
  obtain ⟨-, hmade, -, htarget⟩ := super_call_to_first_base (grammatical_of_parse hwhole) hcall
    ⟨receiver, ⟨hkind, callee, member, hcallee, haccess, hreceiver, hmember, hm⟩, hcalled, hsuper⟩
    hreached haround hname
  rw [htarget "B" [] hbases (by rw [hA]; exact hfound), ← FileContext.ofText_of_parse hwhole]
    at hmade
  exact ⟨whole, definition, chunk, root, call, hwhole, hdefinition, hchunk, hroot, hcall, hmade⟩

/-- A later class of the same name takes the place of the one that the method belongs to. -/
theorem super_call_past_own_base :
    let source := "class A(B):\n def m(self):\n  super().m()\nclass A(C):\n pass"
    let site := [0, 4, 0, 0]
    ∃ whole definition chunk root call, parse? source = some whole ∧
      whole.children[0]? = some definition ∧
      baseClasses (importsOf whole) definition = ["B"] ∧
      (Chunk.methodsOf "a.py" "a.py" ("A", "a") definition).head? = some chunk ∧
      parse? chunk.content = some root ∧ root.at? site = some call ∧
      root.classAround? site = none ∧
      madeIn chunk (.ofText source) root site = [callReference chunk call "C.m" true] := by
  intro source site
  have hshape : (do
      let whole ← parse? source
      let definition : SyntaxTree ← whole.children[0]?
      let chunk ← (Chunk.methodsOf "a.py" "a.py" ("A", "a") definition).head?
      let root ← parse? chunk.content
      let call ← root.at? site
      let callee ← call.part? .function
      let receiver ← callee.part? .object
      let member ← callee.part? .member
      let owner ← ownerAt? chunk root site
      pure ([call.kind, callee.kind, receiver.kind], [member.text, superClass whole root owner],
        baseClasses (importsOf whole) definition,
        [isSuperCall receiver, root.isWithin .decorator site, (root.classAround? site).isNone],
        chunk.kind)) =
      some ([.call, .memberAccess, .call], ["m", "C"], ["B"], [true, false, true], .method) := by
    decide +kernel
  simp only [Option.bind_eq_bind, Option.bind_eq_some_iff, Option.pure_def, Option.some.injEq,
    Prod.mk.injEq, List.cons.injEq, and_true, Option.isNone_iff_eq_none] at hshape
  obtain ⟨whole, hwhole, definition, hdefinition, chunk, hchunk, root, hroot, call, hcall, callee,
    hcallee, receiver, hreceiver, member, hmember, owner, howner, ⟨hkind, haccess, hcalled⟩,
    ⟨hm, hbase⟩, hbases, ⟨hsuper, hdecorator, hnone⟩, hmethod⟩ := hshape
  have hreached : IsReached chunk root site :=
    ⟨hdecorator, fun hfile => by rw [hmethod] at hfile; cases hfile⟩
  have hmade := madeIn_of_super whole hcall
    ⟨receiver, ⟨hkind, callee, member, hcallee, haccess, hreceiver, hmember, hm⟩, hcalled, hsuper⟩
    hreached howner
  rw [hbase, ← FileContext.ofText_of_parse hwhole] at hmade
  exact ⟨whole, definition, chunk, root, call, hwhole, hdefinition, hbases, hchunk, hroot, hcall,
    hnone, hmade⟩

end Reference

end CodeGraph
