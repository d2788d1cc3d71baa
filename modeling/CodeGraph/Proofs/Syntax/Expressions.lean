import CodeGraph.Proofs.Syntax.Rules

open Std.Do

set_option mvcgen.warning false

namespace CodeGraph.Syntax

/-! Expressions are made of good pieces, where the constructs inside of them are.  Each rule is run
through the specs of the rules it calls; what is left is that the pieces it joins are good and that
the node it makes is well formed. -/

/-- Every construct that can be derived is made of good pieces. -/
structure Derive.Faithful (derive : Derive) : Prop where
  yields : ∀ goal, (derive goal).Yields GoodAll

namespace Rule

@[spec]
theorem yields_keywordFor : keywordFor.Yields GoodAll := by
  unfold keywordFor
  mvcgen
  all_goals simp_all

@[spec]
theorem yields_gather {kind : Kind} {pieces : List Piece} (hpieces : GoodAll pieces)
    (hfree : kind.isFree = true) : (gather kind pieces).Yields Piece.Good := by
  unfold gather
  mvcgen
  all_goals simp_all

@[spec]
theorem yields_startsComprehension : startsComprehension.Yields fun _ => True := by
  unfold startsComprehension
  mvcgen
  all_goals simp_all

@[spec]
theorem yields_moreElements {item : Rule Piece} (hitem : item.Yields Piece.Good) :
    (moreElements item).Yields GoodAll := by
  unfold moreElements
  mvcgen [hitem]
  all_goals simp_all

@[spec]
theorem yields_word : word.Yields fun piece => piece.Good ∧ piece.tree.children = [] := by
  have hname : anyName.Yields fun piece => piece.Good ∧ piece.tree.children = [] :=
    yields_anyName.mono fun piece hname => ⟨hname.1.1, children_of_isName hname⟩
  unfold word
  mvcgen [-yields_take, -yields_anyName, yields_take_leaf, hname]
  all_goals simp_all

@[spec]
theorem yields_awaits (inside : Bool) : (awaits inside).Yields fun _ => True := by
  unfold awaits
  mvcgen
  all_goals simp_all

variable {derive : Derive} (hderive : derive.Faithful)

include hderive

@[spec]
theorem yields_expression (least : Nat) (inside : Bool) :
    (expression derive least inside).Yields Piece.Good := by
  have hyields := hderive.yields
  unfold expression
  mvcgen [hyields]
  all_goals simp_all

@[spec]
theorem yields_primary (inside : Bool) : (primary derive inside).Yields Piece.Good := by
  have hyields := hderive.yields
  unfold primary
  mvcgen [hyields]
  all_goals simp_all

@[spec]
theorem yields_expressionList (inside : Bool) :
    (expressionList derive inside).Yields Piece.Good := by
  unfold expressionList
  mvcgen
  all_goals simp_all

/-! Strings -/

@[spec]
theorem yields_interpolationWith {value : Rule Piece} (hvalue : value.Yields Piece.Good) :
    (interpolationWith derive value).Yields Piece.Good := by
  have hyields := hderive.yields
  unfold interpolationWith
  mvcgen [hyields, hvalue]
  all_goals simp_all [GoodAll.map_withKind]

@[spec]
theorem yields_stringLiteral : (stringLiteral derive).Yields Piece.Good := by
  have hyields := hderive.yields
  unfold stringLiteral
  mvcgen [hyields]
  all_goals simp_all

@[spec]
theorem yields_strings (inside : Bool) : (strings derive inside).Yields Piece.Good := by
  unfold strings
  mvcgen
  all_goals simp_all

@[spec]
theorem yields_yieldExpression (inside : Bool) :
    (yieldExpression derive inside).Yields Piece.Good := by
  unfold yieldExpression
  mvcgen
  all_goals simp_all

/-! Targets of loops -/

@[spec]
theorem yields_target : (target derive).Yields Piece.Good := by
  unfold target
  mvcgen
  all_goals simp_all +zetaDelta [Piece.Good.withTarget]

@[spec]
theorem yields_targets : (targets derive).Yields Piece.Good := by
  unfold targets
  mvcgen
  all_goals simp_all

/-! Comprehensions -/

@[spec]
theorem yields_forInClause : (forInClause derive).Yields Piece.Good := by
  unfold forInClause
  mvcgen
  all_goals simp_all

@[spec]
theorem yields_ifClause (least : Nat) : (ifClause derive least).Yields Piece.Good := by
  unfold ifClause
  mvcgen
  all_goals simp_all

@[spec]
theorem yields_comprehensionClauses : (comprehensionClauses derive).Yields GoodAll := by
  unfold comprehensionClauses
  mvcgen
  all_goals simp_all

/-! Displays -/

@[spec]
theorem yields_element : (element derive).Yields Piece.Good := by
  unfold element
  mvcgen
  all_goals simp_all

@[spec]
theorem yields_parenthesized : (parenthesized derive).Yields Piece.Good := by
  unfold parenthesized
  mvcgen
  all_goals simp_all [formed_of_sign]
  intros
  split <;> simp

@[spec]
theorem yields_listDisplay : (listDisplay derive).Yields Piece.Good := by
  unfold listDisplay
  mvcgen
  all_goals simp_all

@[spec]
theorem yields_pairWith {key : Piece} (hkey : key.Good) :
    (pairWith derive key).Yields Piece.Good := by
  unfold pairWith
  mvcgen
  all_goals simp_all

@[spec]
theorem yields_dictionaryItem : (dictionaryItem derive).Yields Piece.Good := by
  unfold dictionaryItem
  mvcgen
  all_goals simp_all

@[spec]
theorem yields_braceDisplay : (braceDisplay derive).Yields Piece.Good := by
  unfold braceDisplay
  mvcgen
  all_goals simp_all

@[spec]
theorem yields_atom (inside : Bool) : (atom derive inside).Yields Piece.Good := by
  unfold atom
  mvcgen
  all_goals simp_all

/-! Calls, attributes and subscripts -/

@[spec]
theorem yields_argument : (argument derive).Yields Piece.Good := by
  unfold argument
  mvcgen
  all_goals simp_all

@[spec]
theorem yields_arguments : (arguments derive).Yields fun piece =>
    piece.Good ∧ piece.tree.kind.holdsWord = true := by
  unfold arguments
  mvcgen
  all_goals simp_all [formed_of_sign]

@[spec]
theorem yields_slicePart : (slicePart derive).Yields GoodAll := by
  unfold slicePart
  mvcgen
  all_goals simp_all

@[spec]
theorem yields_subscriptItem : (subscriptItem derive).Yields Piece.Good := by
  unfold subscriptItem
  mvcgen
  all_goals simp_all

def Trailer.Good : Trailer → Prop
  | .member dot name => IsBare .token dot ∧ IsName name
  | .call arguments => arguments.Good ∧ arguments.tree.kind.holdsWord = true
  | .subscript pieces => GoodAll pieces

def Trailer.GoodAll (trailers : List Trailer) : Prop :=
  ∀ trailer ∈ trailers, trailer.Good

namespace Trailer

omit hderive

@[simp] theorem good_member {dot name : Piece} :
    (member dot name).Good ↔ IsBare .token dot ∧ IsName name := Iff.rfl

@[simp] theorem good_call {arguments : Piece} :
    (call arguments).Good ↔ arguments.Good ∧ arguments.tree.kind.holdsWord = true := Iff.rfl

@[simp] theorem good_subscript {pieces : List Piece} :
    (subscript pieces).Good ↔ Syntax.GoodAll pieces := Iff.rfl

@[simp] theorem goodAll_nil : GoodAll [] := nofun

@[simp] theorem goodAll_cons {trailer : Trailer} {rest : List Trailer} :
    GoodAll (trailer :: rest) ↔ trailer.Good ∧ GoodAll rest :=
  List.forall_mem_cons

@[simp] theorem goodAll_reverse {trailers : List Trailer} :
    GoodAll trailers.reverse ↔ GoodAll trailers := by
  simp [GoodAll]

theorem GoodAll.sublist {all part : List Trailer} (hall : GoodAll all)
    (hpart : part.Sublist all) : GoodAll part :=
  fun trailer hmem => hall trailer (hpart.subset hmem)

end Trailer

@[spec]
theorem yields_trailer? (inside : Bool) :
    (trailer? derive inside).Yields fun found =>
      ∀ trailer, found = some trailer → trailer.Good := by
  unfold trailer?
  mvcgen
  all_goals simp_all

omit hderive in
theorem formed_memberAccess {piece dot name : Piece} (hpiece : piece.Good)
    (hdot : IsBare .token dot) (hname : IsName name) (start stop : Position) (text : String) :
    (SyntaxTree.node .memberAccess none start stop text
      (childrenOf [piece.withRole .object, dot, name.withRole .member])).Formed := by
  have hgood : GoodAll [piece.withRole .object, dot, name.withRole .member] := by
    simp_all
  obtain ⟨object, -, -, hobject⟩ := hgood.part? .object (by simp)
  obtain ⟨member, hmem, hrole, hmember⟩ := hgood.part? .member (by simp)
  -- neither the object nor the dot is the member
  have hsame : member = name.withRole .member := by
    simp only [List.mem_cons, List.not_mem_nil, or_false] at hmem
    rcases hmem with rfl | rfl | rfl
    · simp at hrole
    · simp_all
    · rfl
  refine ⟨object.tree, member.tree, hobject _ _ _ _, hmember _ _ _ _, ?_⟩
  rw [hsame]
  simpa [children_of_isName hname] using hname.2

omit hderive in
theorem formed_call {piece arguments : Piece} (hgood : arguments.Good)
    (hword : arguments.tree.kind.holdsWord = true) (start stop : Position) (text : String) :
    (SyntaxTree.node .call none start stop text
      (childrenOf [piece.withRole .function, arguments.withRole .arguments])).Formed := by
  obtain ⟨inner, hinner, htext⟩ := hgood.2.formed.exists_text hword
  have hmem : (arguments.withRole .arguments).tree ∈
      childrenOf [piece.withRole .function, arguments.withRole .arguments] := by
    simp [childrenOf, Piece.flatten]
  refine ⟨inner, SyntaxTree.mem_preorderAll.mpr ⟨_, hmem, ?_⟩, htext⟩
  exact SyntaxTree.mem_preorder_of_children (by simpa using hinner)

omit hderive in
@[spec]
theorem yields_extend {piece : Piece} (hpiece : piece.Good) {trailer : Trailer}
    (htrailer : trailer.Good) : (extend piece trailer).Yields Piece.Good := by
  cases trailer with
  | member dot name =>
      have hformed := formed_memberAccess hpiece htrailer.1 htrailer.2
      unfold extend
      mvcgen
      all_goals simp_all
  | call arguments =>
      have hformed := @formed_call piece arguments htrailer.1 htrailer.2
      unfold extend
      mvcgen
      all_goals simp_all
  | subscript pieces =>
      unfold extend
      mvcgen
      all_goals simp_all

theorem yields_trailersUpTo (inside : Bool) (fuel : Nat) {done : List Trailer}
    (hdone : Trailer.GoodAll done) :
    (trailersUpTo derive inside fuel done).Yields Trailer.GoodAll := by
  induction fuel generalizing done with
  | zero =>
      unfold trailersUpTo
      mvcgen
      simp_all
  | succ fuel ih =>
      unfold trailersUpTo
      mvcgen [ih]
      all_goals simp_all

@[spec]
theorem yields_trailers (inside : Bool) :
    (trailers derive inside).Yields Trailer.GoodAll := by
  unfold trailers
  mvcgen [yields_trailersUpTo]
  all_goals simp_all

omit hderive in
@[spec]
theorem yields_foldlM_extend {piece : Piece} (hpiece : piece.Good) {trailers : List Trailer}
    (htrailers : Trailer.GoodAll trailers) :
    (trailers.foldlM extend piece).Yields Piece.Good := by
  induction trailers generalizing piece with
  | nil =>
      unfold List.foldlM
      mvcgen
  | cons trailer rest ih =>
      obtain ⟨htrailer, hrest⟩ := List.forall_mem_cons.mp htrailers
      unfold List.foldlM
      mvcgen [-Spec.foldlM_list, ih]
      all_goals simp_all

@[spec]
theorem yields_primaryRule (inside : Bool) : (primaryRule derive inside).Yields Piece.Good := by
  unfold primaryRule
  mvcgen [-Spec.foldlM_list]
  all_goals simp_all

@[spec]
theorem yields_splat (inside : Bool) : (splat derive inside).Yields Piece.Good := by
  have hcalls : ∀ {all}, Trailer.GoodAll all →
      Trailer.GoodAll (all.reverse.takeWhile Trailer.isCall) := fun hall =>
    (Trailer.goodAll_reverse.mpr hall).sublist (List.takeWhile_sublist _)
  have hcovered : ∀ {all} count, Trailer.GoodAll all → Trailer.GoodAll (all.take count) :=
    fun count hall => hall.sublist (List.take_sublist count _)
  unfold splat
  mvcgen [-Spec.foldlM_list]
  all_goals simp_all +zetaDelta

/-! Operators -/

theorem yields_binaryUpTo_and_tail (inside : Bool) (fuel : Nat) :
    (∀ least, (binaryUpTo derive inside fuel least).Yields Piece.Good) ∧
      ∀ least left, left.Good → (binaryTail derive inside fuel least left).Yields Piece.Good := by
  induction fuel with
  | zero =>
      constructor
      · intro least
        unfold binaryUpTo
        mvcgen
        simp_all
      · intro least left hleft
        unfold binaryTail
        mvcgen
  | succ fuel ih =>
      obtain ⟨hoperand, htail⟩ := ih
      constructor
      · intro least
        unfold binaryUpTo
        mvcgen [hoperand, htail]
        all_goals simp_all
      · intro least left hleft
        unfold binaryTail
        mvcgen [hoperand, htail]
        all_goals simp_all

@[spec]
theorem yields_binary (inside : Bool) : (binary derive inside).Yields Piece.Good := by
  have hoperands := fun fuel => (yields_binaryUpTo_and_tail hderive inside fuel).1
  unfold binary
  mvcgen [hoperands]

omit hderive in
theorem formed_token {first second : Piece} (hfirst : IsBare .token first)
    (hsecond : IsBare .token second) (start stop : Position) (text : String) :
    (SyntaxTree.node .token none start stop text (childrenOf [first, second])).Formed := by
  intro child hchild
  simp only [SyntaxTree.children, childrenOf, Piece.flatten, List.flatMap_cons, List.flatMap_nil,
    List.append_nil, List.mem_cons, List.mem_append, List.not_mem_nil, or_false] at hchild
  rcases hchild with rfl | hextra | rfl
  · rw [hfirst.2.1]
    rfl
  · exact (hsecond.1.1 child hextra).trivia
  · rw [hsecond.2.1]
    rfl

omit hderive in
@[spec]
theorem yields_comparisonOperator? (inside : Bool) :
    (comparisonOperator? inside).Yields fun found => ∀ piece, found = some piece → piece.Good := by
  unfold comparisonOperator?
  mvcgen
  all_goals simp_all [formed_token]

@[spec]
theorem yields_comparison (inside : Bool) : (comparison derive inside).Yields Piece.Good := by
  unfold comparison
  mvcgen
  all_goals simp_all

/-! Parameters and annotations -/

@[spec]
theorem yields_typeHint (inside : Bool) : (typeHint derive inside).Yields Piece.Good := by
  unfold typeHint
  mvcgen
  all_goals simp_all

@[spec]
theorem yields_parameterType : (parameterType derive).Yields GoodAll := by
  unfold parameterType
  mvcgen
  all_goals simp_all

@[spec]
theorem yields_parameterDefault : (parameterDefault derive).Yields GoodAll := by
  unfold parameterDefault
  mvcgen
  all_goals simp_all

omit hderive in
/-- The name of a node that starts with it. -/
theorem part?_name_of_first (kind : Kind) (name : Piece) (rest : List Piece)
    (start stop : Position) (text : String) :
    (SyntaxTree.node kind none start stop text (childrenOf (name.withRole .name :: rest))).part?
      .name = some (name.tree.withRole .name) := by
  simp [SyntaxTree.part?, childrenOf]

omit hderive in
theorem formed_typedDefaultParameter {name : Piece} (hname : IsName name) (rest : List Piece)
    (start stop : Position) (text : String) :
    (SyntaxTree.node .typedDefaultParameter none start stop text
      (childrenOf (name.withRole .name :: rest))).Formed := by
  intro found hfound
  rw [part?_name_of_first] at hfound
  cases hfound
  simpa using hname.1.2.1

omit hderive in
theorem formed_namedExpression {name : Piece} (hname : name.tree.children = [])
    (rest : List Piece) (start stop : Position) (text : String) :
    (SyntaxTree.node .namedExpression none start stop text
      (childrenOf (name.withRole .name :: rest))).Formed := by
  intro found hfound
  rw [part?_name_of_first] at hfound
  cases hfound
  simpa using hname

@[spec]
theorem yields_parameter (isTyped : Bool) : (parameter derive isTyped).Yields Piece.Good := by
  unfold parameter
  mvcgen
  all_goals simp_all [formed_typedDefaultParameter]
  intros
  split <;> simp

@[spec]
theorem yields_parameters : (parameters derive).Yields Piece.Good := by
  unfold parameters
  mvcgen
  all_goals simp_all

@[spec]
theorem yields_lambdaParameters : (lambdaParameters derive).Yields GoodAll := by
  unfold lambdaParameters
  mvcgen
  all_goals simp_all

/-! Whole expressions -/

@[spec]
theorem yields_lambda (least : Nat) (inside : Bool) :
    (lambda derive least inside).Yields Piece.Good := by
  unfold lambda
  mvcgen
  all_goals simp_all

@[spec]
theorem yields_operand (least : Nat) (inside : Bool) :
    (operand derive least inside).Yields Piece.Good := by
  unfold operand
  mvcgen
  all_goals simp_all
  intros
  exact formed_namedExpression (by simp_all) _ _ _ _

theorem yields_expressionTail (least : Nat) (inside : Bool) (fuel : Nat) {left : Piece}
    (hleft : left.Good) : (expressionTail derive least inside fuel left).Yields Piece.Good := by
  induction fuel generalizing left with
  | zero =>
      unfold expressionTail
      mvcgen
  | succ fuel ih =>
      unfold expressionTail
      mvcgen [ih]
      all_goals simp_all

@[spec]
theorem yields_expressionRule (least : Nat) (inside : Bool) :
    (expressionRule derive least inside).Yields Piece.Good := by
  unfold expressionRule
  mvcgen [yields_expressionTail]
  all_goals simp_all

@[spec]
theorem yields_fieldValue : (fieldValue derive).Yields Piece.Good := by
  unfold fieldValue
  mvcgen
  all_goals simp_all

end Rule

end CodeGraph.Syntax
