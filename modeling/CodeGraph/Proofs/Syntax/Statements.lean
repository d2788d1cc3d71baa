import CodeGraph.Proofs.Syntax.DottedNames
import CodeGraph.Proofs.Syntax.Expressions

open Std.Do

set_option mvcgen.warning false

namespace CodeGraph.Syntax

/-! Patterns, statements and blocks are made of good pieces. -/

namespace Rule

@[spec]
theorem yields_number : number.Yields Piece.Good := by
  unfold number
  mvcgen
  all_goals simp_all

@[spec]
theorem yields_numberPattern : numberPattern.Yields GoodAll := by
  unfold numberPattern
  mvcgen
  all_goals simp_all

/-! Imports -/

theorem formed_aliasedImport {name word binding : Piece} (hname : IsBare .dottedName name)
    (hword : IsBare .token word) (hbinding : IsName binding) (start stop : Position)
    (text : String) :
    (SyntaxTree.node .aliasedImport none start stop text
      (childrenOf [name.withRole .name, word, binding.withRole .binding])).Formed := by
  have hgood : GoodAll [name.withRole .name, word, binding.withRole .binding] := by
    simp_all
  obtain ⟨first, hfirst, hfirstRole, hpath⟩ := hgood.part? .name (by simp)
  obtain ⟨last, hlast, hlastRole, halias⟩ := hgood.part? .binding (by simp)
  simp only [List.mem_cons, List.not_mem_nil, or_false] at hfirst hlast
  refine ⟨⟨first.tree, hpath _ _ _ _, ?_⟩, last.tree, halias _ _ _ _, ?_⟩
  · rcases hfirst with rfl | rfl | rfl
    · simpa using hname.2.1
    · simp_all
    · simp at hfirstRole
  · rcases hlast with rfl | rfl | rfl
    · simp at hlastRole
    · simp_all
    · simpa using hbinding.2

@[spec]
theorem yields_importItem (inside : Bool) : (importItem inside).Yields Piece.Good := by
  unfold importItem
  mvcgen
  all_goals simp_all [formed_aliasedImport]

@[spec]
theorem yields_importItems (inside : Bool) : (importItems inside).Yields GoodAll := by
  unfold importItems
  mvcgen
  all_goals simp_all

@[spec]
theorem yields_importStatement : importStatement.Yields Piece.Good := by
  unfold importStatement
  mvcgen
  all_goals simp_all [formed_of_sign]

@[spec]
theorem yields_dots : dots.Yields GoodAll := by
  unfold dots
  mvcgen
  all_goals simp_all

@[spec]
theorem yields_importSource : importSource.Yields Piece.Good := by
  unfold importSource
  mvcgen
  all_goals simp_all

@[spec]
theorem yields_importedNames : importedNames.Yields GoodAll := by
  unfold importedNames
  mvcgen
  all_goals simp_all

@[spec]
theorem yields_importFromStatement : importFromStatement.Yields Piece.Good := by
  unfold importFromStatement
  mvcgen
  all_goals simp_all [formed_of_sign]

/-! Ends of statements -/

theorem yields_lineEndUpTo (fuel : Nat) {done : List Piece} (hdone : GoodAll done) :
    (lineEndUpTo fuel done).Yields GoodAll := by
  induction fuel generalizing done with
  | zero =>
      unfold lineEndUpTo
      mvcgen
      simp_all
  | succ fuel ih =>
      unfold lineEndUpTo
      mvcgen [ih]
      all_goals simp_all

@[spec]
theorem yields_lineEnd : lineEnd.Yields GoodAll := by
  unfold lineEnd
  mvcgen [yields_lineEndUpTo]
  all_goals simp_all

@[spec]
theorem yields_statementEnds : statementEnds.Yields fun _ => True := by
  unfold statementEnds
  mvcgen
  all_goals simp_all

@[spec]
theorem yields_whole {rule : Rule Piece} (hrule : rule.Yields Piece.Good) :
    (whole rule).Yields Piece.Good := by
  unfold whole
  mvcgen [hrule]
  all_goals simp_all

@[spec]
theorem yields_names {kind : Kind} (hfree : kind.isFree = true) (text : String) :
    (names kind text).Yields Piece.Good := by
  unfold names
  mvcgen
  all_goals simp_all

theorem yields_headerExtrasUpTo (fuel : Nat) {done : List SyntaxTree}
    (hdone : ∀ tree ∈ done, tree.IsExtra) :
    (headerExtrasUpTo fuel done).Yields fun extras => ∀ tree ∈ extras, tree.IsExtra := by
  induction fuel generalizing done with
  | zero =>
      unfold headerExtrasUpTo
      mvcgen
      simp_all
  | succ fuel ih =>
      unfold headerExtrasUpTo
      mvcgen [ih]
      all_goals simp_all

@[spec]
theorem yields_headerExtras : headerExtras.Yields fun extras => ∀ tree ∈ extras, tree.IsExtra := by
  unfold headerExtras
  mvcgen [yields_headerExtrasUpTo]
  all_goals simp_all

@[spec]
theorem yields_clauseFollows (indent : Nat) (keywords : List String) :
    (clauseFollows indent keywords).Yields fun _ => True := by
  unfold clauseFollows
  mvcgen
  all_goals simp_all

/-! Assignments -/

@[spec]
theorem yields_asTarget {piece : Piece} (hpiece : piece.Good) :
    (asTarget piece).Yields Piece.Good := by
  unfold asTarget
  mvcgen
  all_goals simp_all [Piece.Good.withTarget]

theorem yields_mapM {convert : Piece → Rule Piece}
    (hconvert : ∀ {piece}, piece.Good → (convert piece).Yields Piece.Good) {pieces : List Piece}
    (hpieces : GoodAll pieces) : (pieces.mapM convert).Yields GoodAll := by
  induction pieces with
  | nil =>
      rw [List.mapM_nil]
      mvcgen
  | cons piece rest ih =>
      obtain ⟨hpiece, hrest⟩ := goodAll_cons.mp hpieces
      have hfirst := hconvert hpiece
      have hothers := ih hrest
      rw [List.mapM_cons]
      mvcgen [hfirst, hothers]
      all_goals simp_all

@[spec]
theorem yields_asTargets {pieces : List Piece} (hpieces : GoodAll pieces) :
    (asTargets pieces).Yields Piece.Good := by
  have hitem : ∀ {piece : Piece}, piece.Good → Yields
      (if piece.tree.kind == .token then pure piece else asTarget piece) Piece.Good := by
    intro piece hpiece
    mvcgen
    all_goals simp_all
  have htargets := yields_mapM hitem hpieces
  unfold asTargets
  mvcgen [htargets]
  all_goals simp_all

variable {derive : Derive} (hderive : derive.Faithful)

include hderive

@[spec]
theorem yields_expressionItems : (expressionItems derive).Yields GoodAll := by
  unfold expressionItems
  mvcgen
  all_goals simp_all

theorem yields_assignmentUpTo (fuel : Nat) {items : List Piece} (hitems : GoodAll items) :
    (assignmentUpTo derive fuel items).Yields fun found =>
      ∀ piece, found = some piece → piece.Good := by
  induction fuel generalizing items with
  | zero =>
      unfold assignmentUpTo
      mvcgen
      simp_all
  | succ fuel ih =>
      unfold assignmentUpTo
      mvcgen [ih]
      all_goals simp_all

@[spec]
theorem yields_expressionStatement : (expressionStatement derive).Yields Piece.Good := by
  unfold expressionStatement
  mvcgen [yields_assignmentUpTo]
  all_goals simp_all

/-! Simple statements -/

@[spec]
theorem yields_printStatement : (printStatement derive).Yields Piece.Good := by
  unfold printStatement
  mvcgen
  all_goals simp_all

@[spec]
theorem yields_execStatement : (execStatement derive).Yields Piece.Good := by
  unfold execStatement
  mvcgen
  all_goals simp_all

@[spec]
theorem yields_typeAliasStatement : (typeAliasStatement derive).Yields Piece.Good := by
  unfold typeAliasStatement
  mvcgen
  all_goals simp_all

@[spec]
theorem yields_keywordExpressions {kind : Kind} (hfree : kind.isFree = true) (text : String) :
    (keywordExpressions derive kind text).Yields Piece.Good := by
  unfold keywordExpressions
  mvcgen
  all_goals simp_all

@[spec]
theorem yields_raiseStatement : (raiseStatement derive).Yields Piece.Good := by
  unfold raiseStatement
  mvcgen
  all_goals simp_all [formed_of_sign]

@[spec]
theorem yields_assertStatement : (assertStatement derive).Yields Piece.Good := by
  unfold assertStatement
  mvcgen
  all_goals simp_all

@[spec]
theorem yields_simpleStatement : (simpleStatement derive).Yields Piece.Good := by
  unfold simpleStatement
  mvcgen
  all_goals simp_all

@[spec]
theorem yields_simpleStatements : (simpleStatements derive).Yields GoodAll := by
  unfold simpleStatements
  mvcgen
  all_goals simp_all

/-! Blocks -/

theorem yields_statementsUpTo (indent fuel : Nat) {done : List (List Piece)}
    (hdone : ∀ pieces ∈ done, GoodAll pieces) :
    (statementsUpTo derive indent fuel done).Yields GoodAll := by
  have hyields := hderive.yields
  induction fuel generalizing done with
  | zero =>
      unfold statementsUpTo
      mvcgen
      simp_all
  | succ fuel ih =>
      have hflatten := goodAll_flatten fun pieces hmem => hdone pieces (List.mem_reverse.mp hmem)
      unfold statementsUpTo
      mvcgen [hyields, ih]
      all_goals simp_all

@[spec]
theorem yields_statements (indent : Nat) {first : List Piece} (hfirst : GoodAll first) :
    (statements derive indent first).Yields GoodAll := by
  unfold statements
  mvcgen [yields_statementsUpTo]
  all_goals simp_all

@[spec]
theorem yields_suite (indent : Nat) :
    (suite derive indent).Yields fun piece => piece.Good ∧ piece.tree.kind = .block := by
  have hyields := hderive.yields
  unfold suite
  mvcgen [hyields]
  all_goals simp_all [Piece.Good.withExtras]

@[spec]
theorem yields_body (indent : Nat) : (body derive indent).Yields BlockAll := by
  unfold body
  mvcgen
  all_goals simp_all

/-! Compound statements -/

@[spec]
theorem yields_elseClause (indent : Nat) : (elseClause derive indent).Yields GoodAll := by
  unfold elseClause
  mvcgen
  all_goals simp_all

@[spec]
theorem yields_ifStatement (indent : Nat) : (ifStatement derive indent).Yields Piece.Good := by
  unfold ifStatement
  mvcgen
  all_goals simp_all

@[spec]
theorem yields_whileStatement (indent : Nat) :
    (whileStatement derive indent).Yields Piece.Good := by
  unfold whileStatement
  mvcgen
  all_goals simp_all

@[spec]
theorem yields_forStatement (indent : Nat) : (forStatement derive indent).Yields Piece.Good := by
  unfold forStatement
  mvcgen
  all_goals simp_all

@[spec]
theorem yields_exceptClause (indent : Nat) : (exceptClause derive indent).Yields GoodAll := by
  unfold exceptClause
  mvcgen
  all_goals simp_all [formed_of_sign]

@[spec]
theorem yields_exceptGroupClause (indent : Nat) :
    (exceptGroupClause derive indent).Yields GoodAll := by
  unfold exceptGroupClause
  mvcgen
  all_goals simp_all [formed_of_sign]

@[spec]
theorem yields_finallyClause (indent : Nat) : (finallyClause derive indent).Yields GoodAll := by
  unfold finallyClause
  mvcgen
  all_goals simp_all

@[spec]
theorem yields_tryStatement (indent : Nat) : (tryStatement derive indent).Yields Piece.Good := by
  unfold tryStatement
  mvcgen
  all_goals simp_all

@[spec]
theorem yields_withItem : (withItem derive).Yields Piece.Good := by
  unfold withItem
  mvcgen
  all_goals simp_all

@[spec]
theorem yields_withClause : (withClause derive).Yields Piece.Good := by
  unfold withClause
  mvcgen
  all_goals simp_all

@[spec]
theorem yields_withStatement (indent : Nat) : (withStatement derive indent).Yields Piece.Good := by
  unfold withStatement
  mvcgen
  all_goals simp_all

@[spec]
theorem yields_typeParameters : (typeParameters derive).Yields BareAll := by
  unfold typeParameters
  refine yields_orNone_of bareAll_nil ?_
  mvcgen
  all_goals simp_all

omit hderive in
theorem formed_definition {kind : Kind} (hkind : kind.isDefinition = true) {pieces : List Piece}
    (hblock : BlockAll pieces)
    (hname : pieces.any (fun piece => piece.tree.role == some .name) = true)
    (start stop : Position) (text : String) :
    (SyntaxTree.node kind none start stop text (childrenOf pieces)).Formed := by
  obtain ⟨name, hmem, hrole, hpart⟩ := hblock.goodAll.part? .name (by simpa using hname)
  have hnamed := (hblock.2 name hmem).2 hrole
  have hformed := (hblock.goodAll name hmem).2.formed
  rw [SyntaxTree.Formed, hnamed] at hformed
  have hbody : ∀ body, (SyntaxTree.node kind none start stop text (childrenOf pieces)).part? .body =
      some body → body.kind = .block := by
    intro body hbody
    have hrole : body.role = some .body := by simpa using List.find?_some hbody
    obtain ⟨piece, hmem, rfl⟩ :=
      hblock.goodAll.exists_of_role (List.mem_of_find?_eq_some hbody) hrole
    exact (hblock.2 piece hmem).1 hrole
  unfold Kind.isDefinition at hkind
  split at hkind
  · exact ⟨⟨name.tree, hpart _ _ _ _, hnamed, hformed.1⟩, hbody⟩
  · exact ⟨⟨name.tree, hpart _ _ _ _, hnamed, hformed.1⟩, hbody⟩
  · cases hkind

@[spec]
theorem yields_functionDefinition (indent : Nat) :
    (functionDefinition derive indent).Yields (IsBare .functionDefinition) := by
  have hasync : (orNone do pure [← keyword "async"]).Yields BlockAll := by
    refine yields_orNone_of blockAll_nil ?_
    mvcgen
    all_goals simp_all
  have hresult : (orNone do
      pure [← symbol "->", (← typeHint derive true).withRole .returnType]).Yields BlockAll := by
    refine yields_orNone_of blockAll_nil ?_
    mvcgen
    all_goals simp_all
  unfold functionDefinition
  mvcgen [-yields_orNone, hasync, hresult]
  all_goals simp_all
  intros
  exact formed_definition rfl (by simp_all) (by simp_all) _ _ _

@[spec]
theorem yields_classDefinition (indent : Nat) :
    (classDefinition derive indent).Yields (IsBare .classDefinition) := by
  have hbases : (orNone do
      check ((← peek).isSymbol "(")
      let bases ← arguments derive
      check (bases.tree.kind == .argumentList)
      pure [bases.withRole .superclasses]).Yields BlockAll := by
    refine yields_orNone_of blockAll_nil ?_
    mvcgen
    all_goals simp_all
  unfold classDefinition
  mvcgen [-yields_orNone, hbases]
  all_goals simp_all
  intros
  exact formed_definition rfl (by simp_all) (by simp_all) _ _ _

/-- Decorators with no part to play. -/
def DecoratorAll (pieces : List Piece) : Prop :=
  BareAll pieces ∧ ∀ piece ∈ pieces, piece.tree.kind = .decorator

omit hderive in
@[simp] theorem DecoratorAll.goodAll {pieces : List Piece} (hall : DecoratorAll pieces) :
    GoodAll pieces :=
  hall.1.goodAll

omit hderive in
theorem decoratorAll_append {first second : List Piece} (hfirst : DecoratorAll first)
    (hsecond : DecoratorAll second) : DecoratorAll (first ++ second) :=
  ⟨bareAll_append.mpr ⟨hfirst.1, hsecond.1⟩, List.forall_mem_append.mpr ⟨hfirst.2, hsecond.2⟩⟩

omit hderive in
theorem formed_decoratedDefinition {decorators : List Piece} {definition : Piece}
    (hdecorators : DecoratorAll decorators) (hgood : definition.Good)
    (hkind : definition.tree.kind.isDefinition = true) (start stop : Position) (text : String) :
    (SyntaxTree.node .decoratedDefinition none start stop text
      (childrenOf (decorators ++ [definition.withRole .definition]))).Formed := by
  have hall : GoodAll (decorators ++ [definition.withRole .definition]) := by
    simp [hdecorators, hgood]
  obtain ⟨found, hmem, hrole, hpart⟩ :=
    hall.part? .definition ⟨definition.withRole .definition, by simp⟩
  refine ⟨⟨found.tree, hpart _ _ _ _, ?_⟩, fun child hchild => ?_⟩
  · -- the decorators play no part
    rcases List.mem_append.mp hmem with hdecorator | hlast
    · rw [hdecorators.1.2 found hdecorator] at hrole
      cases hrole
    · rw [List.mem_singleton.mp hlast]
      simpa using hkind
  · rcases hall.exists_or_isExtra hchild with ⟨piece, hpiece, rfl⟩ | hextra
    · rcases List.mem_append.mp hpiece with hdecorator | hlast
      · exact .inl (hdecorators.2 piece hdecorator)
      · rw [List.mem_singleton.mp hlast]
        exact .inr (.inr (by simpa using hkind))
    · exact .inr (.inl hextra.trivia)

theorem yields_decorator : (decorator derive).Yields DecoratorAll := by
  unfold decorator
  mvcgen
  all_goals simp_all [DecoratorAll]

@[spec]
theorem yields_decoratedDefinition (indent : Nat) :
    (decoratedDefinition derive indent).Yields Piece.Good := by
  have hdecorator := yields_decorator hderive
  have hdecorators : (many (decorator derive)).Yields DecoratorAll :=
    yields_many_of ⟨bareAll_nil, nofun⟩ decoratorAll_append hdecorator
  have hdefinition : (classDefinition derive indent <|> functionDefinition derive indent).Yields
      fun piece => piece.Good ∧ piece.tree.kind.isDefinition = true := by
    refine yields_orElse ?_ ?_
    · exact (yields_classDefinition hderive indent).mono fun piece hbare =>
        ⟨hbare.1, by rw [hbare.2.1]; rfl⟩
    · exact (yields_functionDefinition hderive indent).mono fun piece hbare =>
        ⟨hbare.1, by rw [hbare.2.1]; rfl⟩
  unfold decoratedDefinition
  mvcgen [-yields_many, -yields_orElse_piece, hdecorator, hdecorators, hdefinition]
  all_goals simp_all
  intros
  rw [← List.append_assoc]
  exact formed_decoratedDefinition (decoratorAll_append (by simp_all) (by simp_all))
    (by assumption) (by assumption) _ _ _

/-! Patterns and match statements -/

@[spec]
theorem yields_casePattern : (casePattern derive).Yields Piece.Good := by
  have hyields := hderive.yields
  unfold casePattern
  mvcgen [hyields]
  all_goals simp_all

@[spec]
theorem yields_dictPatternItem : (dictPatternItem derive).Yields GoodAll := by
  unfold dictPatternItem
  mvcgen
  all_goals simp_all

@[spec]
theorem yields_dictPattern : (dictPattern derive).Yields Piece.Good := by
  unfold dictPattern
  mvcgen
  all_goals simp_all

@[spec]
theorem yields_simplePattern : (simplePattern derive).Yields GoodAll := by
  unfold simplePattern
  mvcgen
  all_goals simp_all

@[spec]
theorem yields_unionPattern : (unionPattern derive).Yields GoodAll := by
  unfold unionPattern
  mvcgen
  all_goals simp_all

@[spec]
theorem yields_casePatternRule : (casePatternRule derive).Yields Piece.Good := by
  unfold casePatternRule
  mvcgen
  all_goals simp_all

@[spec]
theorem yields_caseClause (indent : Nat) : (caseClause derive indent).Yields GoodAll := by
  unfold caseClause
  mvcgen
  all_goals simp_all

theorem yields_caseClausesUpTo (indent fuel : Nat) {done : List (List Piece)}
    (hdone : ∀ pieces ∈ done, GoodAll pieces) :
    (caseClausesUpTo derive indent fuel done).Yields GoodAll := by
  induction fuel generalizing done with
  | zero =>
      unfold caseClausesUpTo
      mvcgen
      simp_all
  | succ fuel ih =>
      have hflatten := goodAll_flatten fun pieces hmem => hdone pieces (List.mem_reverse.mp hmem)
      unfold caseClausesUpTo
      mvcgen [ih]
      all_goals simp_all

@[spec]
theorem yields_matchStatement (indent : Nat) :
    (matchStatement derive indent).Yields Piece.Good := by
  unfold matchStatement
  mvcgen [yields_caseClausesUpTo]
  all_goals simp_all +zetaDelta [Piece.Good.withExtras]

@[spec]
theorem yields_statementRule (indent : Nat) : (statementRule derive indent).Yields GoodAll := by
  unfold statementRule
  mvcgen
  all_goals simp_all

end Rule

end CodeGraph.Syntax
