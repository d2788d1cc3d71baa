import CodeGraph.Proofs.Names.Outline
import CodeGraph.Proofs.Names.Writes
import CodeGraph.Proofs.Reference.OpenScopes
import CodeGraph.Proofs.Syntax.Parse

namespace CodeGraph

open Syntax Names

/-! Methods that are called on plain names.  The walk keeps one stack of scopes and writes
attributes into it; for a variable, the stack gives what the definitions around the call give. -/

namespace Reference

/-- The type of a variable at a site of a chunk. -/
theorem typeOf?_stateIn {name : String} (hplain : isAttributeKey name = false) (chunk : Chunk)
    (file : FileContext) {root inner : SyntaxTree} (hroot : root.kind = .root) {site : List Nat}
    (hinner : root.at? site = some inner) :
    (stateIn chunk file root site).context.typeOf? name =
      seenType? file.imports name (root.definitionsAround site ++ [root]) := by
  rw [typeOf?_eq_firstGiven? hplain, map_gives_stateIn name chunk file hroot hinner,
    funext (scopeGives_of_plain file.imports hplain), seenType?_eq_firstGiven?, scopesOf,
    ← SyntaxTree.map_fst_scopesAround hinner, List.map_append, List.map_append, List.map_map]
  rfl

theorem isAttributeKey_of_not_mem {name : String} (hdot : '.' ∉ name.toList) :
    isAttributeKey name = false := by
  have hnone : ∀ owner : String, '.' ∈ owner.toList →
      owner.toList.isPrefixOf name.toList = false := by
    intro owner howner
    rw [Bool.eq_false_iff]
    intro hstart
    exact hdot ((List.isPrefixOf_iff_prefix.mp hstart).subset howner)
  rw [isAttributeKey, hnone _ (by decide), hnone _ (by decide)]
  rfl

theorem methodTarget_stateIn (chunk : Chunk) (file : FileContext) {root call receiver : SyntaxTree}
    (hroot : root.kind = .root) {site : List Nat} (hcall : root.at? site = some call)
    (hname : receiver.kind = .identifier) (hdot : '.' ∉ receiver.text.toList)
    (hself : receiver.text ≠ "self") (hcls : receiver.text ≠ "cls") (current : Option String)
    (method : String) :
    methodTarget (stateIn chunk file root site).context current receiver method =
      plainTarget file.imports receiver.text method (root.definitionsAround site ++ [root]) := by
  have hfile := file_stateIn chunk file root site
  rw [methodTarget, receiverClass?, hname]
  simp only [hself, hcls, or_self, if_false]
  rw [ownerOf?, typeOf?_stateIn (isAttributeKey_of_not_mem hdot) chunk file hroot hcall,
    plainTarget, Context.import?, hfile]
  cases seenType? file.imports receiver.text (root.definitionsAround site ++ [root]) with
  | none => cases file.imports.get? receiver.text <;> rfl
  | some type =>
      dsimp only
      rw [Context.unalias, hfile]

end Reference

/-! Edits that leave the definitions around a site as they are -/

namespace Syntax.SyntaxTree

/-- The trees agree on the way to the site.  They may differ inside of the definitions that do not
hold it, and in all positions. -/
def SameAround (one other : SyntaxTree) : List Nat → Prop
  | [] => one.outline = other.outline
  | index :: rest =>
      one.kind = other.kind ∧ one.children.map outline = other.children.map outline ∧
        match one.children[index]?, other.children[index]? with
        | some child, some changed => SameAround child changed rest
        | _, _ => False

instance decidableSameAround (one other : SyntaxTree) :
    (site : List Nat) → Decidable (SameAround one other site)
  | [] => inferInstanceAs (Decidable (one.outline = other.outline))
  | index :: rest =>
      have : Decidable (match one.children[index]?, other.children[index]? with
          | some child, some changed => SameAround child changed rest
          | _, _ => False) :=
        match one.children[index]?, other.children[index]? with
        | some child, some changed => decidableSameAround child changed rest
        | some _, none | none, _ => inferInstanceAs (Decidable False)
      inferInstanceAs (Decidable (_ ∧ _ ∧ _))

variable {one other : SyntaxTree}

theorem SameAround.child {index : Nat} {rest : List Nat}
    (hsame : SameAround one other (index :: rest)) :
    ∃ child changed, one.children[index]? = some child ∧ other.children[index]? = some changed ∧
      SameAround child changed rest := by
  have hbelow := hsame.2.2
  split at hbelow
  · next child changed hchild hchanged => exact ⟨child, changed, hchild, hchanged, hbelow⟩
  · exact hbelow.elim

theorem SameAround.kind_eq {site : List Nat} (hsame : SameAround one other site) :
    one.kind = other.kind := by
  cases site with
  | nil => exact kind_eq_of_outline hsame
  | cons index rest => exact hsame.1

theorem SameAround.isWithin_eq {site : List Nat} (hsame : SameAround one other site)
    (kind : Kind) : one.isWithin kind site = other.isWithin kind site := by
  induction site generalizing one other with
  | nil => rw [isWithin, isWithin, hsame.kind_eq]
  | cons index rest ih =>
      obtain ⟨child, changed, hchild, hchanged, hbelow⟩ := hsame.child
      rw [isWithin, isWithin, hsame.kind_eq, hchild, hchanged]
      dsimp only
      rw [ih hbelow]

theorem SameAround.at? {site : List Nat} (hsame : SameAround one other site) {inner : SyntaxTree}
    (hinner : one.at? site = some inner) :
    ∃ changed, other.at? site = some changed ∧ inner.outline = changed.outline := by
  induction site generalizing one other with
  | nil =>
      cases hinner
      exact ⟨other, rfl, hsame⟩
  | cons index rest ih =>
      obtain ⟨child, changed, hchild, hchanged, hbelow⟩ := hsame.child
      rw [at?_cons, hchild] at hinner
      rw [at?_cons, hchanged]
      exact ih hbelow hinner

/-- The definitions around the site give every variable the same type. -/
theorem SameAround.map_treeGives {site : List Nat} (hsame : SameAround one other site)
    (imports : Imports) (name : String) :
    (one.definitionsAround site).map (treeGives imports name) =
      (other.definitionsAround site).map (treeGives imports name) := by
  induction site generalizing one other with
  | nil => rfl
  | cons index rest ih =>
      obtain ⟨child, changed, hchild, hchanged, hbelow⟩ := hsame.child
      rw [definitionsAround_cons hchild, definitionsAround_cons hchanged, hsame.kind_eq]
      split
      · rw [List.map_append, List.map_append, ih hbelow, List.map_singleton, List.map_singleton,
          treeGives_congr imports name hsame.1 hsame.2.1]
      · exact ih hbelow

theorem SameAround.map_treeGives_root {site : List Nat} (hsame : SameAround one other site)
    (hroot : one.kind = .root) (imports : Imports) (name : String) :
    (one.definitionsAround site ++ [one]).map (treeGives imports name) =
      (other.definitionsAround site ++ [other]).map (treeGives imports name) := by
  have hchildren : one.children.map outline = other.children.map outline := by
    cases site with
    | nil =>
        have hopen : ∀ tree : SyntaxTree, tree.kind = .root → isCut tree.kind tree.role = false :=
          fun tree hkind => isCut_eq_false (by rw [hkind]; rfl) _
        rw [← children_outline (hopen one hroot),
          ← children_outline (hopen other (hsame.kind_eq.symm.trans hroot)), hsame]
    | cons index rest => exact hsame.2.1
  rw [List.map_append, List.map_append, hsame.map_treeGives, List.map_singleton, List.map_singleton,
    treeGives_congr imports name hsame.kind_eq hchildren]

end Syntax.SyntaxTree

namespace Reference

open SyntaxTree

theorem plainTarget_congr {imports : Imports} {name : String} (method : String)
    {scopes others : List SyntaxTree}
    (hgives : scopes.map (treeGives imports name) = others.map (treeGives imports name)) :
    plainTarget imports name method scopes = plainTarget imports name method others := by
  rw [plainTarget, plainTarget, seenType?_eq_firstGiven?, hgives, ← seenType?_eq_firstGiven?]

theorem IsReached.of_sameAround {chunk edited : Chunk} (hkind : edited.kind = chunk.kind)
    {root changed : SyntaxTree} {site : List Nat} (hsame : SameAround root changed site)
    (hreached : IsReached chunk root site) : IsReached edited changed site where
  outside_decorators := by
    rw [← hsame.isWithin_eq]
    exact hreached.outside_decorators
  outside_definitions := by
    rintro hfile index rest statement rfl hstatement
    obtain ⟨before, after, hbefore, hafter, hbelow⟩ := hsame.child
    cases hstatement.symm.trans hafter
    rw [← hbelow.kind_eq]
    exact hreached.outside_definitions (hkind ▸ hfile) index rest before rfl hbefore

/-- A method call is read off its outline. -/
theorem IsMethodCall.of_outline {call receiver changed : SyntaxTree} {method : String}
    (hmethod : IsMethodCall call receiver method) (hsame : call.outline = changed.outline) :
    ∃ target, IsMethodCall changed target method ∧ receiver.outline = target.outline := by
  obtain ⟨callee, member, hcallee, haccess, hobject, hmember, rfl⟩ := hmethod.callee
  have hcall : isApart call.kind = false := by rw [hmethod.kind_eq]; rfl
  have hopen : isApart callee.kind = false := by rw [haccess]; rfl
  obtain ⟨function, hfunction, hcalleeSame⟩ := exists_part?_of_outline hsame hcall hcallee
  obtain ⟨target, htarget, htargetSame⟩ := exists_part?_of_outline hcalleeSame hopen hobject
  obtain ⟨named, hnamed, hnamedSame⟩ := exists_part?_of_outline hcalleeSame hopen hmember
  refine ⟨target, ⟨(kind_eq_of_outline hsame).symm.trans hmethod.kind_eq, function, named,
    hfunction, (kind_eq_of_outline hcalleeSame).symm.trans haccess, htarget, hnamed, ?_⟩,
    htargetSame⟩
  rw [← text_outline_of_part? hnamed rfl, ← hnamedSame, text_outline_of_part? hmember rfl]

theorem plainTarget_ne_empty (imports : Imports) (name : String) {method : String}
    (hmethod : method ≠ "") (scopes : List SyntaxTree) :
    plainTarget imports name method scopes ≠ "" := by
  unfold plainTarget
  split
  · simp
  · split
    · simp
    · exact hmethod

theorem IsMethodCall.method_ne_empty {call receiver : SyntaxTree} {method : String}
    (hmethod : IsMethodCall call receiver method) (hcall : call.Grammatical) : method ≠ "" := by
  obtain ⟨callee, member, hcallee, haccess, -, hmember, rfl⟩ := hmethod.callee
  have hformed := (hcall.child (List.mem_of_find?_eq_some hcallee)).formed
  rw [SyntaxTree.Formed, haccess] at hformed
  obtain ⟨-, named, -, hnamed, hne, -⟩ := hformed
  cases hmember.symm.trans hnamed
  exact hne

theorem IsMethodCall.grammatical_receiver {call receiver : SyntaxTree} {method : String}
    (hmethod : IsMethodCall call receiver method) (hcall : call.Grammatical) :
    receiver.Grammatical := by
  obtain ⟨callee, member, hcallee, -, hobject, -, -⟩ := hmethod.callee
  exact (hcall.child (List.mem_of_find?_eq_some hcallee)).child (List.mem_of_find?_eq_some hobject)

/-- The reference of a method call on a variable. -/
theorem madeIn_of_plain {chunk : Chunk} (file : FileContext) {root call receiver : SyntaxTree}
    {site : List Nat} {method : String} (hroot : root.IsModule)
    (hcall : root.at? site = some call) (hmethod : IsMethodCall call receiver method)
    (hname : receiver.kind = .identifier) (hself : receiver.text ≠ "self")
    (hcls : receiver.text ≠ "cls") (hreached : IsReached chunk root site) :
    madeIn chunk file root site =
      [callReference chunk call
        (plainTarget file.imports receiver.text method (root.definitionsAround site ++ [root]))
        true] := by
  have hgrammatical := hroot.grammatical.of_at? hcall
  have hformed := (hmethod.grammatical_receiver hgrammatical).formed
  rw [SyntaxTree.Formed, hname] at hformed
  have htarget := methodTarget_stateIn chunk file hroot.kind_eq hcall hname hformed.2.1 hself hcls
    (classIn chunk file root site) method
  rw [hmethod.madeIn_eq file hcall hreached, htarget]
  rw [htarget]
  exact plainTarget_ne_empty _ _ (hmethod.method_ne_empty hgrammatical) _

/-- The method of a call on a variable is that of the type which the definitions around the call
give the variable, else of what the name imports.  Edits of other definitions change nothing. -/
theorem plain_call_by_definitions_around {chunk : Chunk} (file : FileContext)
    {root call receiver : SyntaxTree} {site : List Nat} {method : String} (hroot : root.IsModule)
    (hcall : root.at? site = some call) (hmethod : IsMethodCall call receiver method)
    (hname : receiver.kind = .identifier) (hself : receiver.text ≠ "self")
    (hcls : receiver.text ≠ "cls") (hreached : IsReached chunk root site) :
    ∃ target,
      (∀ other, MethodOf file.imports receiver.text method (root.definitionsAround site ++ [root])
        other ↔ other = target) ∧
      ofTree chunk file root = root.addresses.flatMap (madeIn chunk file root) ∧
      madeIn chunk file root site = [callReference chunk call target true] ∧
      callReference chunk call target true ∈ ofTree chunk file root ∧
      ∀ edited changed context, edited.kind = chunk.kind → context.imports = file.imports →
        changed.IsModule → SameAround root changed site →
          (madeIn edited context changed site).map Reference.target = [target] := by
  have hmade := madeIn_of_plain file hroot hcall hmethod hname hself hcls hreached
  refine ⟨_, fun other => methodOf_iff, ofTree_eq_flatMap chunk file root, hmade,
    mem_ofTree_of_madeIn hcall ?_, ?_⟩
  · rw [hmade]
    exact List.mem_singleton_self _
  · intro edited changed context hkind himports hchanged hsame
    obtain ⟨moved, hmoved, houtline⟩ := hsame.at? hcall
    obtain ⟨found, hfound, hreceiver⟩ := hmethod.of_outline houtline
    have hidentifier : found.kind = .identifier := (kind_eq_of_outline hreceiver).symm.trans hname
    have htext : found.text = receiver.text := by
      rw [← text_outline_of_identifier hidentifier, ← hreceiver, text_outline_of_identifier hname]
    rw [← htext] at hself hcls
    rw [madeIn_of_plain context hchanged hmoved hfound hidentifier hself hcls
      (hreached.of_sameAround hkind hsame), himports, htext]
    exact congrArg (fun target => [target])
      (plainTarget_congr method (hsame.map_treeGives_root hroot.kind_eq _ _)).symm

/-- Calls in a method, one for each form of a write, with a nested function that binds the first
name again.  The class body is not searched, and an edit of the nested function does not matter. -/
theorem plain_calls_by_form_of_write :
    let around := fun nested =>
      "x = K()\nclass A:\n x = B()\n def f(y: D):\n  def g" ++ nested ++ "\n  x.m()\n  y.m()\n" ++
        "  v: 'F' = B()\n  v.m()\n  a = b = p.G()\n  a.m()\n  if w := H(): w.m()\n" ++
        "  with I() as i: i.m()"
    let content := around "(x: D): x = E()"
    let edit := around "(): y = x = D.F()"
    let chunk : Chunk :=
      { id := "a", name := "A", kind := .classDef, file := "a.py", path := "a.py",
        language := "python", startLine := 1, endLine := 13, content }
    let file : FileContext := { imports := [("K", ⟨"lib.L", "L"⟩)] }
    let place := fun rest => [1, 3, 1, 4] ++ rest
    let sites := [(place [1, 0], "L.m"), (place [2, 0], "D.m"), (place [4, 0], "F.m"),
      (place [6, 0], "G.m"), (place [7, 3, 0, 0], "H.m"), (place [8, 3, 0, 0], "I.m")]
    ∃ root changed, parse? content = some root ∧ parse? edit = some changed ∧
      ∀ entry ∈ sites, ∃ call, root.at? entry.1 = some call ∧
        madeIn chunk file root entry.1 = [callReference chunk call entry.2 true] ∧
        (madeIn { chunk with content := edit } file changed entry.1).map Reference.target =
          [entry.2] := by
  intro around content edit chunk file place sites
  have hshape : (do
      let root ← parse? content
      let changed ← parse? edit
      pure (sites.all fun entry => decide ((do
        let call ← root.at? entry.1
        let callee ← call.part? .function
        let receiver ← callee.part? .object
        let member ← callee.part? .member
        pure ([call.kind, callee.kind, receiver.kind],
          plainTarget file.imports receiver.text member.text
            (root.definitionsAround entry.1 ++ [root]),
          [decide (receiver.text = "self"), decide (receiver.text = "cls"),
            root.isWithin .decorator entry.1, !decide (SameAround root changed entry.1)])) =
        some ([.call, .memberAccess, .identifier], entry.2,
          [false, false, false, false])))) = some true := by
    decide +kernel
  simp only [Option.bind_eq_bind, Option.bind_eq_some_iff, Option.pure_def, Option.some.injEq,
    List.all_eq_true, decide_eq_true_eq, Prod.mk.injEq, List.cons.injEq, and_true,
    decide_eq_false_iff_not, Bool.not_eq_false'] at hshape
  obtain ⟨root, hroot, changed, hchanged, hsites⟩ := hshape
  refine ⟨root, changed, hroot, hchanged, fun entry hentry => ?_⟩
  obtain ⟨call, hcall, callee, hcallee, receiver, hreceiver, member, hmember,
    ⟨hkind, haccess, hidentifier⟩, htarget, hself, hcls, hdecorator, hsame⟩ :=
    hsites entry hentry
  have hreached : IsReached chunk root entry.1 := ⟨hdecorator, fun hfile => by cases hfile⟩
  obtain ⟨target, honly, -, hmade, -, hedited⟩ := plain_call_by_definitions_around file
    (isModule_of_parse hroot) hcall
    ⟨hkind, callee, member, hcallee, haccess, hreceiver, hmember, rfl⟩ hidentifier hself hcls
    hreached
  obtain rfl : entry.2 = target := (honly entry.2).mp (methodOf_iff.mpr htarget.symm)
  exact ⟨call, hcall, hmade, hedited { chunk with content := edit } changed file rfl rfl
    (isModule_of_parse hchanged) hsame⟩

end Reference

end CodeGraph
