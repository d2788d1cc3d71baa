import CodeGraph.Names.FileContext
import CodeGraph.Proofs.Syntax.Parse
import Mathlib.Data.List.TakeWhile

namespace CodeGraph

/-! What an import binds has a name of its own. -/

theorem NameMap.get?_insertAll {α : Type} {map : NameMap α} {entries : List (String × α)}
    {name : String} {value : α} (hfound : (map.insertAll entries).get? name = some value) :
    map.get? name = some value ∨ (name, value) ∈ entries := by
  induction entries generalizing map with
  | nil => exact .inl hfound
  | cons entry rest ih =>
      rcases ih hfound with hinserted | hrest
      · rw [get?_insert] at hinserted
        split at hinserted
        · next hname =>
            cases hinserted
            rw [← hname]
            exact .inr List.mem_cons_self
        · exact .inl hinserted
      · exact .inr (List.mem_cons_of_mem entry hrest)

namespace Names

open Syntax

/-- Every name of the bindings stands for a class with a name. -/
def Named (bindings : List (String × Imported)) : Prop :=
  ∀ binding ∈ bindings, binding.1 ≠ "" → binding.2.typeName ≠ ""

theorem named_append {first second : List (String × Imported)} (hfirst : Named first)
    (hsecond : Named second) : Named (first ++ second) :=
  List.forall_mem_append.mpr ⟨hfirst, hsecond⟩

theorem lastSegment_beforeFirst (text : List Char) :
    Text.lastSegment (String.ofList (Text.beforeFirst '.' text)) =
      String.ofList (Text.beforeFirst '.' text) := by
  have hall : ∀ c ∈ Text.beforeFirst '.' text, c ≠ '.' := by
    intro c hmem
    have htaken := List.mem_takeWhile_imp hmem
    simpa using htaken
  rw [Text.lastSegment, String.toList_ofList, Text.afterLast, List.takeWhile_eq_self_iff.mpr,
    List.reverse_reverse]
  intro c hmem
  simpa using hall c (List.mem_reverse.mp hmem)

theorem lastSegment_of_dottedName {item : SyntaxTree} (hitem : item.Grammatical)
    (hkind : item.kind = .dottedName) : Text.lastSegment item.text ≠ "" := by
  have hformed := hitem.formed
  rw [SyntaxTree.Formed, hkind] at hformed
  exact hformed

theorem lastSegment_of_aliasOf? {item : SyntaxTree} (hitem : item.Grammatical)
    (hkind : item.kind = .aliasedImport) {path binding : String}
    (halias : aliasOf? item = some (path, binding)) : Text.lastSegment path ≠ "" := by
  obtain ⟨name, hname, halias⟩ := Option.bind_eq_some_iff.mp halias
  obtain ⟨other, -, hsame⟩ := Option.bind_eq_some_iff.mp halias
  cases hsame
  have hformed := hitem.formed
  rw [SyntaxTree.Formed, hkind] at hformed
  obtain ⟨⟨path, hpath, hdotted⟩, -⟩ := hformed
  cases hname.symm.trans hpath
  exact lastSegment_of_dottedName (hitem.child (List.mem_of_find?_eq_some hname)) hdotted

theorem named_plainBindings {item : SyntaxTree} (hitem : item.Grammatical) :
    Named (plainBindings item) := by
  unfold plainBindings
  split
  · next hkind =>
      apply named_append
      · intro binding hmem hname
        split at hmem
        · cases hmem
        · cases List.mem_singleton.mp hmem
          rwa [Imported.typeName, lastSegment_beforeFirst]
      · intro binding hmem _
        cases List.mem_singleton.mp hmem
        exact lastSegment_of_dottedName hitem hkind
  · next hkind =>
      split
      · next path binding halias =>
          intro entry hmem _
          cases List.mem_singleton.mp hmem
          exact lastSegment_of_aliasOf? hitem hkind halias
      · nofun
  · nofun

theorem named_fromBindings {item : SyntaxTree} (hitem : item.Grammatical) (source : String) :
    Named (fromBindings source item) := by
  intro entry hmem _
  unfold fromBindings at hmem
  dsimp only at hmem
  split at hmem
  · next name binding hfound =>
      split at hmem
      · cases hmem
      · cases List.mem_singleton.mp hmem
        split at hfound
        · next hkind =>
            cases hfound
            exact lastSegment_of_dottedName hitem hkind
        · next hkind => exact lastSegment_of_aliasOf? hitem hkind hfound
        · cases hfound
  · cases hmem

theorem named_flatMap {items : List SyntaxTree}
    {bindings : SyntaxTree → List (String × Imported)}
    (hitems : ∀ item ∈ items, Named (bindings item)) : Named (items.flatMap bindings) := by
  intro binding hmem
  obtain ⟨item, hitem, hbinding⟩ := List.mem_flatMap.mp hmem
  exact hitems item hitem binding hbinding

theorem named_statementBindings {statement : SyntaxTree} (hstatement : statement.Grammatical) :
    Named (statementBindings statement) := by
  have hparts : ∀ item ∈ statement.parts .name, item.Grammatical := fun item hmem =>
    hstatement.child (List.mem_of_mem_filter hmem)
  unfold statementBindings
  split
  · exact named_flatMap fun item hmem => named_plainBindings (hparts item hmem)
  · split
    · exact named_flatMap fun item hmem => named_fromBindings (hparts item hmem) _
    · nofun
  · nofun

mutual

theorem named_bindingsBelow {tree : SyntaxTree} (htree : tree.Grammatical) :
    Named (bindingsBelow tree) := by
  cases tree with
  | node kind role start stop text children =>
      rw [bindingsBelow]
      exact named_bindingsOfAll (SyntaxTree.grammatical_node.mp htree).2

theorem named_bindingsOfAll {trees : List SyntaxTree} (htrees : ∀ tree ∈ trees, tree.Grammatical) :
    Named (bindingsOfAll trees) := by
  cases trees with
  | nil =>
      rw [bindingsOfAll]
      nofun
  | cons tree rest =>
      obtain ⟨htree, hrest⟩ := List.forall_mem_cons.mp htrees
      rw [bindingsOfAll]
      apply named_append
      · split
        · exact named_statementBindings htree
        · exact named_statementBindings htree
        · nofun
        · nofun
        · nofun
        · exact named_bindingsBelow htree
      · exact named_bindingsOfAll hrest

end

theorem unalias_ne_empty {root : SyntaxTree} (hroot : root.Grammatical) {name : String}
    (hname : name ≠ "") : unalias (importsOf root) name ≠ "" := by
  unfold unalias
  split
  · next imported hfound =>
      rcases NameMap.get?_insertAll hfound with hnone | hmem
      · cases hnone
      · exact named_bindingsBelow hroot (name, imported) hmem hname
  · exact hname

theorem unalias_ofText_ne_empty (text : String) {name : String} (hname : name ≠ "") :
    unalias (FileContext.ofText text).imports name ≠ "" := by
  delta FileContext.ofText
  cases hparse : parse? text with
  | none => exact hname
  | some root => exact unalias_ne_empty (grammatical_of_parse hparse) hname

end Names

end CodeGraph
