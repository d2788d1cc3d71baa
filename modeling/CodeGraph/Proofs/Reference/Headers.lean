import CodeGraph.Proofs.Reference.PlainNames

namespace CodeGraph

open Syntax Names

/-! Calls in the headers of definitions: in default values, annotations and lists of bases.  The
walk opens the scope of a definition before its header, so that the header sees the parameters and
the variables of the body, and of a class its own name. -/

namespace Reference

/-! What a call reads -/

def receiver? (call : SyntaxTree) : Option SyntaxTree := do
  let callee ← (call.part? .function).bind callee?
  if callee.kind = .memberAccess then callee.part? .object else none

def receiverName? (receiver : SyntaxTree) : Option String :=
  match receiver.kind with
  | .identifier => some receiver.text
  | .memberAccess => some (String.ofList (Text.squeeze receiver.text.toList))
  | _ => none

/-- The receiver stands for the class around the call, or for its base. -/
def isOfClass (receiver : SyntaxTree) : Bool :=
  match receiver.kind with
  | .identifier => receiver.text == "self" || receiver.text == "cls"
  | .call => isSuperCall receiver
  | _ => false

section

variable {context other : Context} (hfile : context.file = other.file)

include hfile

theorem unalias_congr (name : String) : context.unalias name = other.unalias name :=
  congrArg (fun file : FileContext => Names.unalias file.imports name) hfile

theorem ownerOf?_congr {name : String} (htype : context.typeOf? name = other.typeOf? name) :
    ownerOf? context name = ownerOf? other name := by
  rw [ownerOf?, ownerOf?, htype, Context.import?, Context.import?, hfile]
  split
  · rw [unalias_congr hfile]
  · rfl

end

section Congruence

variable {state other : Walk} (hsame : withoutScopes state = withoutScopes other)

include hsame

theorem file_congr : state.context.file = other.context.file := by
  have hfile := congrArg Context.file hsame
  exact hfile

theorem firstBase?_congr (name : String) :
    state.context.firstBase? name = other.context.firstBase? name := by
  have hbases := congrArg (fun context : Context => context.firstBase? name) hsame
  exact hbases

theorem receiverClass?_congr {current around : Option String} {receiver : SyntaxTree}
    (hclass : current = around ∨ isOfClass receiver = false)
    (htype : ∀ name, receiverName? receiver = some name →
      state.context.typeOf? name = other.context.typeOf? name) :
    receiverClass? state.context current receiver =
      receiverClass? other.context around receiver := by
  unfold receiverClass?
  unfold isOfClass at hclass
  unfold receiverName? at htype
  split
  · next hkind =>
      rw [hkind] at hclass htype
      have howner := ownerOf?_congr (file_congr hsame) (htype receiver.text rfl)
      split
      · next hself =>
          rcases hclass with rfl | hother
          · rw [howner]
          · rcases hself with hself | hself <;> simp [hself] at hother
      · exact howner
  · next hkind =>
      rw [hkind] at hclass
      split
      · next hsuper =>
          rcases hclass with rfl | hother
          · rw [funext (firstBase?_congr hsame)]
          · exact absurd hsuper (Bool.eq_false_iff.mp hother)
      · rfl
  · next hkind =>
      rw [hkind] at htype
      exact ownerOf?_congr (file_congr hsame) (htype _ rfl)
  · rfl

/-- A call refers to the same in two states where what it reads is the same. -/
theorem ofCall_congr (origin : Origin) {current around : Option String} {call : SyntaxTree}
    (hclass : ∀ receiver, receiver? call = some receiver →
      current = around ∨ isOfClass receiver = false)
    (htype : ∀ receiver name, receiver? call = some receiver → receiverName? receiver = some name →
      state.context.typeOf? name = other.context.typeOf? name) :
    ofCall origin state.context current call = ofCall origin other.context around call := by
  have htarget :
      callTarget? state.context current call = callTarget? other.context around call := by
    cases hcallee : (call.part? .function).bind callee? with
    | none => simp [callTarget?, hcallee]
    | some callee =>
        simp only [callTarget?, hcallee, Option.bind_eq_bind, Option.bind_some]
        -- only methods depend on more than the imports
        split
        · rw [unalias_congr (file_congr hsame)]
        · next haccess =>
            cases hobject : callee.part? .object with
            | none => rfl
            | some receiver =>
                have hreceiver : receiver? call = some receiver := by
                  simp [receiver?, hcallee, haccess, hobject]
                have howner := receiverClass?_congr hsame (hclass receiver hreceiver)
                  (fun name => htype receiver name hreceiver)
                simp only [Option.bind_some, methodTarget, howner]
        all_goals rfl
  rw [ofCall, htarget, ← ofCall]

end Congruence

/-! Sites in headers -/

theorem classAt_append {tree inner : SyntaxTree} {place : List Nat}
    (hinner : tree.at? place = some inner) (current : Option String) (rest : List Nat) :
    classAt current tree (place ++ rest) = classAt (classAt current tree place) inner rest := by
  induction place generalizing tree current with
  | nil =>
      cases hinner
      rfl
  | cons index place ih =>
      obtain ⟨child, hchild, hbelow⟩ := SyntaxTree.exists_child_of_at? hinner
      rw [List.cons_append, classAt, classAt, hchild]
      exact ih hbelow _

/-- The call lies in the definition at the place, in a part other than the body and in no inner
definition. -/
structure IsHeaderCall (root definition call : SyntaxTree) (place : List Nat) (index : Nat)
    (rest : List Nat) : Prop where
  definition_at : root.at? place = some definition
  is_definition : definition.kind.isDefinition = true
  part : ∃ part, definition.children[index]? = some part ∧ part.role ≠ some .body ∧
    part.at? rest = some call ∧ part.definitionsAround rest = []
  kind_eq : call.kind = .call

namespace IsHeaderCall

variable {root definition call : SyntaxTree} {place rest : List Nat} {index : Nat}
variable (hheader : IsHeaderCall root definition call place index rest)

include hheader

theorem at?_eq : root.at? (place ++ index :: rest) = some call := by
  obtain ⟨part, hpart, -, hcall, -⟩ := hheader.part
  rw [SyntaxTree.at?_append, hheader.definition_at, Option.bind_some, SyntaxTree.at?_cons, hpart]
  exact hcall

theorem definitionsAround_eq :
    root.definitionsAround (place ++ index :: rest) =
      definition :: root.definitionsAround place := by
  obtain ⟨part, hpart, -, -, hnone⟩ := hheader.part
  exact SyntaxTree.definitionsAround_inside hheader.definition_at hheader.is_definition hpart hnone

theorem classIn_eq (chunk : Chunk) (file : FileContext) :
    classIn chunk file root (place ++ index :: rest) =
      classInside (classIn chunk file root place) definition := by
  obtain ⟨part, hpart, -, hcall, hnone⟩ := hheader.part
  have hclass : part.classAround? rest = none := by
    rw [SyntaxTree.classAround?, hnone]
    rfl
  rw [classIn, classAt_append hheader.definition_at, classAt, hpart]
  exact classAt_of_classAround?_eq_none hcall _ hclass

end IsHeaderCall

theorem classInside_of_function (current : Option String) {function : SyntaxTree}
    (hkind : function.kind = .functionDefinition) : classInside current function = current := by
  rw [classInside, hkind]

/-- A variable that a scope does not give is seen as outside of it, unless the class around the
scope gives it. -/
theorem seenType?_cons_of_unbound {imports : Imports} {name : String} {inner : SyntaxTree}
    {scopes : List SyntaxTree} (hinner : scopeType? imports name inner = none)
    (houter : ∀ outer, scopes.head? = some outer → outer.kind = .classDefinition →
      scopeType? imports name outer = none) :
    seenType? imports name (inner :: scopes) = seenType? imports name scopes := by
  rw [seenType?, List.findSome?_cons, hinner]
  cases scopes with
  | nil => rfl
  | cons outer rest =>
      rw [seenType?]
      by_cases hclass : outer.kind = .classDefinition
      · rw [List.filter_cons_of_neg (by simp [hclass]), List.findSome?_cons,
          houter outer rfl hclass]
      · rw [List.filter_cons_of_pos (by simpa using hclass)]

/-- A call in the header of a definition is resolved inside of the definition: its parameters and
variables are seen, a class around it is hidden, and a class stands for itself.  The call refers to
what it would refer to outside where the types it reads are the same there, as they are for
variables that neither the definition nor a class around it gives. -/
theorem header_call_inside_definition {chunk : Chunk} (file : FileContext)
    {root definition call : SyntaxTree} {place rest : List Nat} {index : Nat}
    (hroot : root.IsModule)
    (hheader : IsHeaderCall root definition call place index rest)
    (hreached : IsReached chunk root (place ++ index :: rest)) :
    let site := place ++ index :: rest
    let inside := (stateIn chunk file root site).context
    let outside := (stateIn chunk file root place).context
    let around := classIn chunk file root place
    let scopes := root.definitionsAround place ++ [root]
    ofTree chunk file root = root.addresses.flatMap (madeIn chunk file root) ∧
      madeIn chunk file root site =
        ofCall (originOf chunk) inside (classInside around definition) call ∧
      (∀ name, isAttributeKey name = false →
        inside.typeOf? name = seenType? file.imports name (definition :: scopes) ∧
        outside.typeOf? name = seenType? file.imports name scopes) ∧
      (∀ name, isAttributeKey name = true →
        inside.typeOf? name = attributeType? file.imports name (scopesOf root site) ∧
        outside.typeOf? name = attributeType? file.imports name (scopesOf root place)) ∧
      (∀ name, isAttributeKey name = false → scopeType? file.imports name definition = none →
        (∀ outer, scopes.head? = some outer → outer.kind = .classDefinition →
          scopeType? file.imports name outer = none) →
        inside.typeOf? name = outside.typeOf? name) ∧
      ((∀ receiver, receiver? call = some receiver →
          (isOfClass receiver = true → definition.kind = .functionDefinition) ∧
          ∀ name, receiverName? receiver = some name →
            inside.typeOf? name = outside.typeOf? name) →
        madeIn chunk file root site = ofCall (originOf chunk) outside around call) := by
  intro site inside outside around scopes
  have hkind := hroot.kind_eq
  have hcall := hheader.at?_eq
  have hmade : madeIn chunk file root site =
      ofCall (originOf chunk) inside (classInside around definition) call := by
    rw [madeIn_of_call file hcall hheader.kind_eq hreached, hheader.classIn_eq]
  have hplain : ∀ name, isAttributeKey name = false →
      inside.typeOf? name = seenType? file.imports name (definition :: scopes) ∧
      outside.typeOf? name = seenType? file.imports name scopes := by
    intro name hname
    refine ⟨?_, typeOf?_stateIn hname chunk file hkind hheader.definition_at⟩
    refine (typeOf?_stateIn hname chunk file hkind hcall).trans ?_
    rw [hheader.definitionsAround_eq]
    rfl
  refine ⟨ofTree_eq_flatMap chunk file root, hmade, hplain, ?_, ?_, ?_⟩
  · intro name hname
    exact ⟨typeOf?_of_attribute hname chunk file hkind hcall,
      typeOf?_of_attribute hname chunk file hkind hheader.definition_at⟩
  · intro name hname hunbound houter
    rw [(hplain name hname).1, (hplain name hname).2]
    exact seenType?_cons_of_unbound hunbound houter
  · intro hreads
    rw [hmade]
    refine ofCall_congr ?_ _ ?_ (fun receiver name hreceiver => (hreads receiver hreceiver).2 name)
    · rw [withoutScopes_stateIn, withoutScopes_stateIn]
    · intro receiver hreceiver
      cases hclass : isOfClass receiver with
      | false => exact .inr rfl
      | true => exact .inl (classInside_of_function _ ((hreads receiver hreceiver).1 hclass))

/-- A default value that reads a parameter of the function around the definition. -/
theorem header_call_on_outer_parameter :
    let content := "def g(x: A):\n def f(y: B, z=x.m()):\n  y = C()"
    let chunk : Chunk :=
      { id := "a", name := "g", kind := .function, file := "a.py", path := "a.py",
        language := "python", startLine := 1, endLine := 3, content }
    let place := [0, 4, 0]
    let site := [0, 4, 0, 2, 3, 2]
    ∃ root call, parse? content = some root ∧ root.at? site = some call ∧
      madeIn chunk {} root site =
        ofCall (originOf chunk) (stateIn chunk {} root place).context
          (classIn chunk {} root place) call ∧
      (madeIn chunk {} root site).map Reference.target = ["A.m"] := by
  intro content chunk place site
  have hshape : (do
      let root ← parse? content
      let definition ← root.at? place
      let part : SyntaxTree ← definition.children[2]?
      let call ← part.at? [3, 2]
      let receiver ← receiver? call
      let name ← receiverName? receiver
      let outer ← (root.definitionsAround place ++ [root]).head?
      pure ([definition.kind, call.kind, outer.kind],
        name :: (madeIn chunk {} root site).map Reference.target,
        [decide (part.role = some .body), (part.definitionsAround [3, 2]).isEmpty,
          isOfClass receiver, root.isWithin .decorator site],
        scopeType? [] "x" definition)) =
      some ([.functionDefinition, .call, .functionDefinition], ["x", "A.m"],
        [false, true, false, false], none) := by
    decide +kernel
  simp only [Option.bind_eq_bind, Option.bind_eq_some_iff, Option.pure_def, Option.some.injEq,
    Prod.mk.injEq, List.cons.injEq, and_true, decide_eq_false_iff_not, List.isEmpty_iff] at hshape
  obtain ⟨root, hroot, definition, hdefinition, part, hpart, call, hcall, receiver, hreceiver, name,
    hname, outer, houter, ⟨hfunction, hkind, hplain⟩, ⟨rfl, htarget⟩,
    ⟨hrole, hinner, hclass, hdecorator⟩, hunbound⟩ := hshape
  have hheader : IsHeaderCall root definition call place 2 [3, 2] :=
    ⟨hdefinition, by rw [hfunction]; rfl, ⟨part, hpart, hrole, hcall, hinner⟩, hkind⟩
  have hreached : IsReached chunk root site := ⟨hdecorator, fun hfile => by cases hfile⟩
  obtain ⟨-, -, -, -, hsame, houtside⟩ :=
    header_call_inside_definition {} (isModule_of_parse hroot) hheader hreached
  refine ⟨root, call, hroot, hheader.at?_eq, houtside ?_, htarget⟩
  intro found hfound
  cases hreceiver.symm.trans hfound
  refine ⟨fun hself => absurd hself (Bool.eq_false_iff.mp hclass), fun read hread => ?_⟩
  cases hname.symm.trans hread
  refine hsame "x" (by decide) hunbound fun scope hscope hbody => ?_
  cases houter.symm.trans hscope
  rw [hplain] at hbody
  cases hbody

/-- A default value that reads a parameter of its own function instead. -/
theorem header_call_on_own_parameter :
    let content := "def g(x: A):\n def f(x: B, y=x.m()):\n  pass"
    let chunk : Chunk :=
      { id := "a", name := "g", kind := .function, file := "a.py", path := "a.py",
        language := "python", startLine := 1, endLine := 3, content }
    let place := [0, 4, 0]
    let site := [0, 4, 0, 2, 3, 2]
    ∃ root definition call, parse? content = some root ∧
      IsHeaderCall root definition call place 2 [3, 2] ∧
      (madeIn chunk {} root site).map Reference.target = ["B.m"] ∧
      (ofCall (originOf chunk) (stateIn chunk {} root place).context
        (classIn chunk {} root place) call).map Reference.target = ["A.m"] := by
  intro content chunk place site
  have hshape : (do
      let root ← parse? content
      let definition ← root.at? place
      let part : SyntaxTree ← definition.children[2]?
      let call ← part.at? [3, 2]
      pure ([definition.kind, call.kind],
        (madeIn chunk {} root site).map Reference.target,
        (ofCall (originOf chunk) (stateIn chunk {} root place).context
          (classIn chunk {} root place) call).map Reference.target,
        [decide (part.role = some .body), (part.definitionsAround [3, 2]).isEmpty])) =
      some ([.functionDefinition, .call], ["B.m"], ["A.m"], [false, true]) := by
    decide +kernel
  simp only [Option.bind_eq_bind, Option.bind_eq_some_iff, Option.pure_def, Option.some.injEq,
    Prod.mk.injEq, List.cons.injEq, and_true, decide_eq_false_iff_not, List.isEmpty_iff] at hshape
  obtain ⟨root, hroot, definition, hdefinition, part, hpart, call, hcall, ⟨hfunction, hkind⟩, hmade,
    houtside, hrole, hinner⟩ := hshape
  exact ⟨root, definition, call, hroot, ⟨hdefinition, by rw [hfunction]; rfl,
    ⟨part, hpart, hrole, hcall, hinner⟩, hkind⟩, hmade, houtside⟩

end Reference

end CodeGraph
