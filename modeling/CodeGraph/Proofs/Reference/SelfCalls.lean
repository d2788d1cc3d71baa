import CodeGraph.Proofs.Reference.Arrival

namespace CodeGraph

open Syntax Names

/-! Methods that are called on `self` or `cls`.  They belong to the innermost class around the
call, whatever else these names are bound to. -/

namespace Reference

/-- The class that a method at the site belongs to: the innermost class around it or, where the
chunk has none there, the one that the chunk itself is in. -/
def ownerAt? (chunk : Chunk) (root : SyntaxTree) (site : List Nat) : Option String :=
  match root.classAround? site with
  | some definition => (definition.part? .name).map SyntaxTree.text
  | none => chunk.parentName.filter (· != "")

theorem classIn_of_ownerAt? {chunk : Chunk} {root inner : SyntaxTree} {site : List Nat}
    (hinner : root.at? site = some inner) {owner : String}
    (howner : ownerAt? chunk root site = some owner) (file : FileContext) :
    classIn chunk file root site = some owner := by
  rw [ownerAt?] at howner
  rw [classIn]
  split at howner
  · next definition hclass =>
      obtain ⟨name, hname, rfl⟩ := Option.map_eq_some_iff.mp howner
      exact classAt_of_classAround? hinner _ hclass hname
  · next hnone =>
      rw [classAt_of_classAround?_eq_none hinner _ hnone, Context.ofTree, howner]
      rfl

/-- A call such as `self.m()` refers to the method of the class around it, for any bindings of
`self` and `cls` as parameters, variables and imports. -/
theorem self_call_to_owner {chunk : Chunk} (file : FileContext) {root call receiver : SyntaxTree}
    {site : List Nat} {method owner : String} (hcall : root.at? site = some call)
    (hmethod : IsMethodCall call receiver method) (hname : receiver.kind = .identifier)
    (hself : receiver.text = "self" ∨ receiver.text = "cls")
    (hreached : IsReached chunk root site) (howner : ownerAt? chunk root site = some owner) :
    ofTree chunk file root = root.addresses.flatMap (madeIn chunk file root) ∧
      madeIn chunk file root site = [callReference chunk call (owner ++ "." ++ method) true] ∧
      callReference chunk call (owner ++ "." ++ method) true ∈ ofTree chunk file root := by
  have htarget : ∀ context, methodTarget context (classIn chunk file root site) receiver method =
      owner ++ "." ++ method := by
    intro context
    rw [methodTarget, classIn_of_ownerAt? hcall howner, receiverClass?, hname]
    simp only [if_pos hself]
    rfl
  have hmade := hmethod.madeIn_eq file hcall hreached (by rw [htarget]; simp)
  rw [htarget] at hmade
  refine ⟨ofTree_eq_flatMap chunk file root, hmade, mem_ofTree_of_madeIn hcall ?_⟩
  rw [hmade]
  exact List.mem_singleton_self _

/-- The inner of two classes, in a method that binds `self` twice. -/
theorem self_call_to_owner_of_inner_class :
    let content := "class A:\n class B:\n  def f(self: T):\n   self = C()\n   self.m()"
    let chunk : Chunk :=
      { id := "a", name := "A", kind := .classDef, file := "a.py", path := "a.py",
        language := "python", startLine := 1, endLine := 5, content }
    let site := [0, 3, 0, 3, 0, 4, 1, 0]
    ∃ root call, parse? content = some root ∧ root.at? site = some call ∧
      ∀ file, madeIn chunk file root site = [callReference chunk call "B.m" true] := by
  intro content chunk site
  have hshape : (do
      let root ← parse? content
      let call ← root.at? site
      let callee ← call.part? .function
      let receiver ← callee.part? .object
      let member ← callee.part? .member
      let owner ← ownerAt? chunk root site
      pure ([call.kind, callee.kind, receiver.kind], [receiver.text, member.text, owner],
        root.isWithin .decorator site)) =
      some ([.call, .memberAccess, .identifier], ["self", "m", "B"], false) := by
    decide +kernel
  simp only [Option.bind_eq_bind, Option.bind_eq_some_iff, Option.pure_def, Option.some.injEq,
    Prod.mk.injEq, List.cons.injEq, and_true] at hshape
  obtain ⟨root, hparse, call, hcall, callee, hcallee, receiver, hreceiver, member, hmember, owner,
    howner, ⟨hkind, haccess, hidentifier⟩, ⟨hself, hname, rfl⟩, hdecorator⟩ := hshape
  have hmethod : IsMethodCall call receiver "m" :=
    ⟨hkind, callee, member, hcallee, haccess, hreceiver, hmember, hname⟩
  have hreached : IsReached chunk root site := ⟨hdecorator, fun hfile => by cases hfile⟩
  exact ⟨root, call, hparse, hcall, fun file =>
    (self_call_to_owner file hcall hmethod hidentifier (.inl hself) hreached howner).2.1⟩

end Reference

end CodeGraph
