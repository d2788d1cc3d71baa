import CodeGraph.Proofs.Syntax.Statements
import CodeGraph.Syntax.Parse

open Std.Do

set_option mvcgen.warning false

namespace CodeGraph.Syntax

/-! The tree of a text is grammatical. -/

namespace Derive

theorem Faithful.ruleOf {derive : Derive} (hderive : derive.Faithful) :
    Faithful (ruleOf derive) where
  yields goal := by
    cases goal with
    | expression least inside =>
        unfold Syntax.ruleOf
        mvcgen
        simp_all
    | primary inside =>
        unfold Syntax.ruleOf
        mvcgen
        simp_all
    | interpolation =>
        unfold Syntax.ruleOf
        mvcgen
        all_goals simp_all
    | casePattern =>
        unfold Syntax.ruleOf
        mvcgen
        simp_all
    | statement indent => exact Rule.yields_statementRule hderive indent

theorem faithful_grammar (depth : Nat) : Faithful (grammar depth) := by
  induction depth with
  | zero =>
      refine ⟨fun goal => ?_⟩
      unfold grammar
      mvcgen
      simp_all
  | succ depth ih => exact ⟨fun goal => ih.ruleOf.yields goal⟩

end Derive

theorem goodAll_of_extras {extras : List SyntaxTree} (hextras : ∀ tree ∈ extras, tree.IsExtra) :
    GoodAll (extras.map fun tree => { tree := tree }) := by
  intro piece hmem
  obtain ⟨tree, htree, rfl⟩ := List.mem_map.mp hmem
  exact ⟨nofun, (hextras tree htree).grammatical⟩

theorem yields_moduleRule {derive : Derive} (hderive : derive.Faithful) :
    (moduleRule derive).Yields GoodAll := by
  unfold moduleRule
  mvcgen
  all_goals simp_all [goodAll_of_extras, Piece.Good]

theorem sound_tokensOf (text : String) (bound : Nat) :
    ({ tokens := tokensOf text.toList } : Stream).Sound { text, bound } :=
  ⟨(listed_tokensOf text.toList).sound, (listed_tokensOf text.toList).ordered⟩

theorem grammatical_of_parse {text : String} {root : SyntaxTree}
    (hparse : parse? text = some root) :
    root.Grammatical := by
  obtain ⟨⟨pieces, later⟩, hfound, hroot⟩ := Option.bind_eq_some_iff.mp hparse
  cases hroot
  obtain ⟨-, hpieces⟩ := Rule.yields_iff.mp (yields_moduleRule (Derive.faithful_grammar _)) _ _ _ _
    (sound_tokensOf text _) hfound
  refine SyntaxTree.grammatical_node.mpr ⟨SyntaxTree.formed_of_isFree rfl, fun child hmem => ?_⟩
  obtain ⟨piece, hpiece, hchild⟩ := List.mem_flatMap.mp hmem
  exact (hpieces piece hpiece).flatten child hchild

theorem kind_of_parse {text : String} {root : SyntaxTree} (hparse : parse? text = some root) :
    root.kind = .root := by
  obtain ⟨⟨pieces, later⟩, hfound, hroot⟩ := Option.bind_eq_some_iff.mp hparse
  cases hroot
  rfl

theorem isModule_of_parse {text : String} {root : SyntaxTree} (hparse : parse? text = some root) :
    root.IsModule :=
  ⟨grammatical_of_parse hparse, kind_of_parse hparse⟩

/-- The tree runs to the end of the text. -/
theorem stop_of_parse {text : String} {root : SyntaxTree} (hparse : parse? text = some root) :
    root.stop = Position.origin.afterAll text.toList := by
  obtain ⟨⟨pieces, later⟩, hfound, hroot⟩ := Option.bind_eq_some_iff.mp hparse
  cases hroot
  rfl

end CodeGraph.Syntax
