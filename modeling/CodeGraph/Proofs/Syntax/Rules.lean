import CodeGraph.Proofs.Syntax.Grammatical
import CodeGraph.Proofs.Syntax.Tokens
import Mathlib

open Std.Do

set_option mvcgen.warning false

namespace CodeGraph.Syntax

/-! What rules give: pieces of grammatical trees, and tokens in order for the rules behind them. -/

structure Stream.Sound (source : Source) (stream : Stream) : Prop where
  sound : ∀ token ∈ stream.tokens, token.Sound source.text.toList
  ordered : stream.tokens.Pairwise fun first second => first.start.offset ≤ second.start.offset

theorem Stream.Sound.rest {source : Source} {stream : Stream} (hsound : stream.Sound source)
    {token : Token} {rest : List Token} (htokens : stream.tokens = token :: rest)
    (last : Position) : ({ tokens := rest, last } : Stream).Sound source := by
  obtain ⟨hall, hordered⟩ := hsound
  rw [htokens] at hall hordered
  exact ⟨(List.forall_mem_cons.mp hall).2, (List.pairwise_cons.mp hordered).2⟩

theorem Stream.Sound.first {source : Source} {stream : Stream} (hsound : stream.Sound source)
    {token : Token} {rest : List Token} (htokens : stream.tokens = token :: rest) :
    token.Sound source.text.toList :=
  hsound.sound token (htokens ▸ List.mem_cons_self)

namespace Rule

/-- A triple says what holds of every value that the rule can give. -/
theorem triple_iff {α : Type} {rule : Rule α} {before : Source → Stream → Prop}
    {after : α → Source → Stream → Prop} :
    ⦃fun source stream => ⌜before source stream⌝⦄ rule
      ⦃⇓? value => fun source stream => ⌜after value source stream⌝⦄ ↔
    ∀ source stream value later, before source stream →
      rule source stream = some (value, later) → after value source later := by
  have hrun : ∀ source stream,
      (wp⟦rule⟧ (PostCond.mayThrow fun value source stream => ⌜after value source stream⌝)
        source stream).down ↔
      ∀ value later, rule source stream = some (value, later) → after value source later := by
    intro source stream
    change (wp⟦rule source stream⟧
      (PostCond.mayThrow fun found => ⌜after found.1 source found.2⌝)).down ↔ _
    cases rule source stream with
    | none => exact ⟨fun _ => nofun, fun _ => trivial⟩
    | some found =>
        refine ⟨fun hafter value later hfound => ?_, fun hall => hall found.1 found.2 rfl⟩
        cases hfound
        exact hafter
  constructor
  · intro htriple source stream value later hbefore hfound
    exact (hrun source stream).mp (htriple source stream hbefore) value later hfound
  · intro hall source stream hbefore
    exact (hrun source stream).mpr fun value later => hall source stream value later hbefore

/-- What the rule gives has the property, and the tokens that it leaves are sound. -/
abbrev Yields {α : Type} (rule : Rule α) (holds : α → Prop) : Prop :=
  ⦃fun source stream => ⌜stream.Sound source⌝⦄ rule
    ⦃⇓? value => fun source stream => ⌜stream.Sound source ∧ holds value⌝⦄

theorem yields_iff {α : Type} {rule : Rule α} {holds : α → Prop} :
    rule.Yields holds ↔ ∀ source stream value later, stream.Sound source →
      rule source stream = some (value, later) → later.Sound source ∧ holds value :=
  triple_iff

theorem Yields.mono {α : Type} {rule : Rule α} {holds other : α → Prop} (hrule : rule.Yields holds)
    (hother : ∀ value, holds value → other value) : rule.Yields other := by
  rw [yields_iff] at hrule ⊢
  intro source stream value later hsound hfound
  obtain ⟨hlater, hvalue⟩ := hrule source stream value later hsound hfound
  exact ⟨hlater, hother value hvalue⟩

theorem bind_eq {α β : Type} {rule : Rule α} {next : α → Rule β} {source : Source}
    {stream later : Stream} {value : β}
    (hfound : (rule >>= next) source stream = some (value, later)) :
    ∃ first between, rule source stream = some (first, between) ∧
      next first source between = some (value, later) := by
  obtain ⟨⟨first, between⟩, hfirst, hnext⟩ := Option.bind_eq_some_iff.mp hfound
  exact ⟨first, between, hfirst, hnext⟩

/-! Choices and repetitions -/

@[spec]
theorem yields_failure {α : Type} : (failure : Rule α).Yields fun _ => False :=
  yields_iff.mpr fun _ _ _ _ _ hfound => nomatch hfound

theorem yields_orElse {α : Type} {first second : Rule α} {holds : α → Prop}
    (hfirst : first.Yields holds) (hsecond : second.Yields holds) :
    (first <|> second).Yields holds := by
  rw [yields_iff] at hfirst hsecond ⊢
  intro source stream value later hsound hfound
  change (first source stream <|> second source stream) = some (value, later) at hfound
  cases hresult : first source stream with
  | none =>
      rw [hresult] at hfound
      exact hsecond source stream value later hsound hfound
  | some found =>
      rw [hresult] at hfound
      cases hfound
      exact hfirst source stream value later hsound hresult

@[spec]
theorem yields_orElse_piece {first second : Rule Piece} (hfirst : first.Yields Piece.Good)
    (hsecond : second.Yields Piece.Good) : (first <|> second).Yields Piece.Good :=
  yields_orElse hfirst hsecond

@[spec]
theorem yields_orElse_pieces {first second : Rule (List Piece)} (hfirst : first.Yields GoodAll)
    (hsecond : second.Yields GoodAll) : (first <|> second).Yields GoodAll :=
  yields_orElse hfirst hsecond

theorem yields_orNone_of {rule : Rule (List Piece)} {holds : List Piece → Prop} (hnil : holds [])
    (hrule : rule.Yields holds) : (orNone rule).Yields holds := by
  unfold orNone
  refine yields_orElse hrule ?_
  mvcgen

@[spec]
theorem yields_orNone {rule : Rule (List Piece)} (hrule : rule.Yields GoodAll) :
    (orNone rule).Yields GoodAll :=
  yields_orNone_of goodAll_nil hrule

theorem attempt_eq {α : Type} (rule : Rule α) (source : Source) (stream : Stream) :
    attempt rule source stream =
      match rule source stream with
      | some (value, later) => some (some value, later)
      | none => some (none, stream) := by
  change (((rule source stream).bind fun found => some (some found.1, found.2)) <|>
    some (none, stream)) = _
  cases rule source stream <;> rfl

/-- What a repeated rule keeps of the stream, it keeps as often as it applies. -/
theorem manyUpTo_keeps {rule : Rule (List Piece)} {source : Source} {before : Stream → Prop}
    {holds : List Piece → Prop} (hnil : holds [])
    (happend : ∀ {first second}, holds first → holds second → holds (first ++ second))
    (hrule : ∀ {stream pieces later}, before stream →
      rule source stream = some (pieces, later) → before later ∧ holds pieces)
    (fuel : Nat) {done : List (List Piece)} (hdone : ∀ pieces ∈ done, holds pieces)
    {stream later : Stream} {pieces : List Piece} (hbefore : before stream)
    (hfound : manyUpTo rule fuel done source stream = some (pieces, later)) :
    before later ∧ holds pieces := by
  have hflatten : ∀ {lists : List (List Piece)}, (∀ pieces ∈ lists, holds pieces) →
      holds lists.flatten := by
    intro lists hlists
    induction lists with
    | nil => exact hnil
    | cons first rest ih =>
        obtain ⟨hfirst, hrest⟩ := List.forall_mem_cons.mp hlists
        exact happend hfirst (ih hrest)
  have hall : holds done.reverse.flatten :=
    hflatten fun pieces hmem => hdone pieces (List.mem_reverse.mp hmem)
  induction fuel generalizing done stream with
  | zero =>
      cases hfound
      exact ⟨hbefore, hall⟩
  | succ fuel ih =>
      change (attempt rule source stream).bind _ = some (pieces, later) at hfound
      rw [attempt_eq] at hfound
      cases hresult : rule source stream with
      | none =>
          rw [hresult] at hfound
          cases hfound
          exact ⟨hbefore, hall⟩
      | some found =>
          obtain ⟨first, between⟩ := found
          rw [hresult] at hfound
          obtain ⟨hbetween, hfirst⟩ := hrule hbefore hresult
          have hmore := List.forall_mem_cons.mpr ⟨hfirst, hdone⟩
          exact ih hmore hbetween hfound
            (hflatten fun pieces hmem => hmore pieces (List.mem_reverse.mp hmem))

theorem yields_many_of {rule : Rule (List Piece)} {holds : List Piece → Prop} (hnil : holds [])
    (happend : ∀ {first second}, holds first → holds second → holds (first ++ second))
    (hrule : rule.Yields holds) : (many rule).Yields holds := by
  rw [yields_iff] at hrule ⊢
  intro source stream pieces later hsound hfound
  exact manyUpTo_keeps hnil happend (hrule source _ _ _) source.bound (List.forall_mem_nil _) hsound
    hfound

@[spec]
theorem yields_many {rule : Rule (List Piece)} (hrule : rule.Yields GoodAll) :
    (many rule).Yields GoodAll :=
  yields_many_of goodAll_nil (fun hfirst hsecond => goodAll_append.mpr ⟨hfirst, hsecond⟩) hrule

/-! Tokens -/

@[spec]
theorem yields_peek : peek.Yields fun _ => True := by
  unfold peek
  mvcgen
  simp_all

@[spec]
theorem yields_peekSecond : peekSecond.Yields fun _ => True := by
  unfold peekSecond
  mvcgen
  simp_all

@[spec]
theorem yields_check (condition : Bool) : (check condition).Yields fun _ => True := by
  unfold check
  mvcgen
  simp_all

@[spec]
theorem yields_continues (inside : Bool) : (continues inside).Yields fun _ => True := by
  unfold continues
  mvcgen

@[spec]
theorem yields_nextIsSymbol (inside : Bool) (text : String) :
    (nextIsSymbol inside text).Yields fun _ => True := by
  unfold nextIsSymbol
  mvcgen
  simp_all

@[spec]
theorem yields_nextIsWord (inside : Bool) (text : String) :
    (nextIsWord inside text).Yields fun _ => True := by
  unfold nextIsWord
  mvcgen
  simp_all

theorem nextIsSymbol_eq {inside : Bool} {text : String} {source : Source} {stream later : Stream}
    {found : Bool} (hfound : nextIsSymbol inside text source stream = some (found, later)) :
    later = stream := by
  obtain ⟨tokens, last⟩ := stream
  cases tokens with
  | nil => cases hfound
  | cons token rest =>
      cases hfound
      rfl

theorem check_eq {condition : Bool} {source : Source} {stream later : Stream} {result : Unit}
    (hfound : check condition source stream = some (result, later)) : later = stream := by
  cases condition with
  | false => cases hfound
  | true =>
      cases hfound
      rfl

/-- A good piece of the kind, with no part to play yet. -/
@[simp] abbrev IsBare (kind : Kind) (piece : Piece) : Prop :=
  piece.Good ∧ piece.tree.kind = kind ∧ piece.tree.role = none

/-- A name with no part to play yet. -/
@[simp] abbrev IsName (piece : Piece) : Prop :=
  IsBare .identifier piece ∧ piece.tree.text ≠ ""

theorem children_of_isName {piece : Piece} (hname : IsName piece) : piece.tree.children = [] := by
  have hformed := hname.1.1.2.formed
  rw [SyntaxTree.Formed, hname.1.2.1] at hformed
  exact hformed.2.2

theorem isExtra_ofExtra (extra : Extra) : (ofExtra extra).IsExtra := by
  unfold ofExtra
  split <;> exact ⟨rfl, rfl, rfl⟩

/-- The leaf of a token. -/
def ofToken (kind : Kind) (token : Token) : Piece :=
  { extras := token.extras.map ofExtra, tree := leaf kind token.text token.start token.stop }

theorem isBare_ofToken {kind : Kind} {token : Token}
    (hformed : (leaf kind token.text token.start token.stop).Formed) :
    IsBare kind (ofToken kind token) := by
  refine ⟨⟨fun tree hmem => ?_, SyntaxTree.grammatical_node.mpr ⟨hformed, nofun⟩⟩, rfl, rfl⟩
  obtain ⟨extra, -, rfl⟩ := List.mem_map.mp hmem
  exact isExtra_ofExtra extra

/-- Kinds of lexemes that have no text of their own to keep. -/
@[simp] def isLexeme (kind : Kind) : Bool :=
  kind.isFree || kind.isTrivia

theorem formed_leaf {kind : Kind} (hkind : isLexeme kind = true) (text : String)
    (start stop : Position) : (leaf kind text start stop).Formed := by
  rw [isLexeme, Bool.or_eq_true] at hkind
  rcases hkind with hfree | htrivia
  · exact SyntaxTree.formed_of_isFree hfree
  · exact SyntaxTree.formed_of_leaf htrivia

theorem take_eq {kind : Kind} {source : Source} {stream later : Stream} {piece : Piece}
    (hfound : take kind source stream = some (piece, later)) :
    ∃ token rest, stream.tokens = token :: rest ∧ piece = ofToken kind token ∧
      later = { tokens := rest, last := token.stop } := by
  obtain ⟨tokens, last⟩ := stream
  cases tokens with
  | nil => cases hfound
  | cons token rest =>
      cases hfound
      exact ⟨token, rest, rfl, rfl, rfl⟩

@[spec]
theorem yields_take {kind : Kind} (hkind : isLexeme kind = true) :
    (take kind).Yields (IsBare kind) := by
  refine yields_iff.mpr fun source stream piece later hsound hfound => ?_
  obtain ⟨token, rest, htokens, rfl, rfl⟩ := take_eq hfound
  exact ⟨hsound.rest htokens token.stop, isBare_ofToken (formed_leaf hkind _ _ _)⟩

theorem yields_take_leaf {kind : Kind} (hkind : isLexeme kind = true) :
    (take kind).Yields fun piece => piece.Good ∧ piece.tree.children = [] := by
  refine yields_iff.mpr fun source stream piece later hsound hfound => ?_
  obtain ⟨token, rest, htokens, rfl, rfl⟩ := take_eq hfound
  exact ⟨hsound.rest htokens token.stop, (isBare_ofToken (formed_leaf hkind _ _ _)).1, rfl⟩

@[spec]
theorem yields_takeExtra? :
    takeExtra?.Yields fun found => ∀ piece, found = some piece →
      piece.Good ∧ piece.tree.IsExtra := by
  refine yields_iff.mpr fun source stream found later hsound hfound => ?_
  obtain ⟨tokens, last⟩ := stream
  cases tokens with
  | nil =>
      cases hfound
      exact ⟨hsound, nofun⟩
  | cons token rest =>
      obtain ⟨extras, gap, lexeme, text, start, stop⟩ := token
      cases extras with
      | nil =>
          cases hfound
          exact ⟨hsound, nofun⟩
      | cons extra extras =>
          cases hfound
          -- the token is the same but for the comments in front of it
          have hfirst := hsound.first rfl
          have hrest := hsound.rest rfl stop
          refine ⟨⟨List.forall_mem_cons.mpr ⟨⟨hfirst.located, hfirst.word⟩, hrest.sound⟩,
            List.pairwise_cons.mpr ⟨(List.pairwise_cons.mp hsound.ordered).1, hrest.ordered⟩⟩, ?_⟩
          intro piece hpiece
          cases hpiece
          exact ⟨⟨nofun, (isExtra_ofExtra extra).grammatical⟩, isExtra_ofExtra extra⟩

@[spec]
theorem yields_lexeme (lexeme : Lexeme) {kind : Kind} (hkind : isLexeme kind = true) :
    (Rule.lexeme lexeme kind).Yields (IsBare kind) := by
  unfold Rule.lexeme
  mvcgen
  all_goals simp_all

/-- Taking the next token, if it passes the test. -/
theorem take_of_check_eq {test : Token → Bool} {kind : Kind} {source : Source}
    {stream later : Stream} {piece : Piece}
    (hfound : (peek >>= fun token => check (test token) >>= fun _ => take kind) source stream =
      some (piece, later)) :
    ∃ token rest, stream.tokens = token :: rest ∧ test token = true ∧
      piece = ofToken kind token ∧ later = { tokens := rest, last := token.stop } := by
  obtain ⟨tokens, last⟩ := stream
  cases tokens with
  | nil => cases hfound
  | cons token rest =>
      change (check (test token) >>= fun _ => take kind) source
        { tokens := token :: rest, last } = some (piece, later) at hfound
      cases htest : test token with
      | false =>
          rw [htest] at hfound
          cases hfound
      | true =>
          rw [htest] at hfound
          cases hfound
          exact ⟨token, rest, rfl, htest, rfl, rfl⟩

/-- A keyword or symbol with no part to play. -/
@[simp] abbrev IsSign (text : String) (piece : Piece) : Prop :=
  IsBare .token piece ∧ piece.tree.text = text

theorem isSign_of_check {test : Token → Bool} {text : String}
    (htest : ∀ token, test token = true → token.text = text) :
    (peek >>= fun token => check (test token) >>= fun _ => take .token).Yields (IsSign text) := by
  refine yields_iff.mpr fun source stream piece later hsound hfound => ?_
  obtain ⟨token, rest, htokens, hpassed, rfl, rfl⟩ := take_of_check_eq hfound
  exact ⟨hsound.rest htokens token.stop, isBare_ofToken (formed_leaf rfl _ _ _),
    htest token hpassed⟩

@[spec]
theorem yields_symbol (text : String) : (symbol text).Yields (IsSign text) :=
  isSign_of_check fun token hsymbol => by simpa using (Bool.and_eq_true_iff.mp hsymbol).2

@[spec]
theorem yields_keyword (text : String) : (keyword text).Yields (IsSign text) :=
  isSign_of_check fun token hword => by simpa using (Bool.and_eq_true_iff.mp hword).2

theorem anyName_eq {source : Source} {stream later : Stream} {piece : Piece}
    (hfound : anyName source stream = some (piece, later)) :
    ∃ token rest, stream.tokens = token :: rest ∧ token.lexeme = .word ∧
      piece = ofToken .identifier token ∧ later = { tokens := rest, last := token.stop } := by
  obtain ⟨token, rest, htokens, hword, hpiece, hlater⟩ := take_of_check_eq hfound
  exact ⟨token, rest, htokens, beq_iff_eq.mp hword, hpiece, hlater⟩

theorem isName_ofToken {text : List Char} {token : Token} (hsound : token.Sound text)
    (hword : token.lexeme = .word) : IsName (ofToken .identifier token) := by
  have hne : token.text ≠ "" := by
    intro hempty
    exact (hsound.word hword).1 (by rw [hempty]; rfl)
  exact ⟨isBare_ofToken ⟨hne, (hsound.word hword).2, rfl⟩, hne⟩

@[spec]
theorem yields_anyName : anyName.Yields IsName := by
  refine yields_iff.mpr fun source stream piece later hsound hfound => ?_
  obtain ⟨token, rest, htokens, hword, rfl, rfl⟩ := anyName_eq hfound
  exact ⟨hsound.rest htokens token.stop, isName_ofToken (hsound.first htokens) hword⟩

/-! Nodes -/

theorem node_eq {kind : Kind} {pieces : List Piece} {source : Source} {stream later : Stream}
    {piece : Piece} (hfound : node kind pieces source stream = some (piece, later)) :
    ∃ first rest, pieces = first :: rest ∧ later = stream ∧ piece.extras = first.extras ∧
      ∃ stop, piece.tree = .node kind none first.tree.start stop
        (String.Pos.Raw.extract source.text ⟨first.tree.start.offset⟩ ⟨stop.offset⟩)
        (childrenOf pieces) ∧
      stop = ((childrenOf pieces).getLast?.map SyntaxTree.stop).getD first.tree.start := by
  cases pieces with
  | nil => cases hfound
  | cons first rest =>
      cases hfound
      exact ⟨first, rest, rfl, rfl, rfl, _, rfl, rfl⟩

@[spec]
theorem yields_node {kind : Kind} {pieces : List Piece} (hpieces : GoodAll pieces)
    (hformed : ∀ start stop text,
      (SyntaxTree.node kind none start stop text (childrenOf pieces)).Formed) :
    (node kind pieces).Yields (IsBare kind) := by
  refine yields_iff.mpr fun source stream piece later hsound hfound => ?_
  obtain ⟨first, rest, rfl, rfl, hextras, stop, htree, -⟩ := node_eq hfound
  refine ⟨hsound, ⟨?_, ?_⟩, by rw [htree]; rfl, by rw [htree]; rfl⟩
  · rw [hextras]
    exact (goodAll_cons.mp hpieces).1.1
  · rw [htree]
    exact SyntaxTree.grammatical_node.mpr ⟨hformed _ _ _, hpieces.childrenOf⟩

/-- A statement or clause that starts with a keyword. -/
theorem formed_of_sign {kind : Kind} (hkind : kind.holdsWord = true) {sign : Piece}
    (hsign : sign.tree.text ≠ "") (rest : List Piece) (start stop : Position) (text : String) :
    (SyntaxTree.node kind none start stop text (childrenOf (sign :: rest))).Formed := by
  have hword : ∃ inner ∈ SyntaxTree.preorderAll (childrenOf (sign :: rest)), inner.text ≠ "" :=
    ⟨sign.tree, SyntaxTree.mem_preorderAll.mpr
      ⟨sign.tree, List.mem_cons_self, SyntaxTree.mem_preorder_self _⟩, hsign⟩
  unfold SyntaxTree.Formed
  split <;> simp_all

@[spec]
theorem yields_emptyNode {kind : Kind} (hfree : kind.isFree = true) :
    (emptyNode kind).Yields (IsBare kind) := by
  have hleaf : ∀ place, (leaf kind "" place place).Grammatical := fun place =>
    SyntaxTree.grammatical_node.mpr ⟨SyntaxTree.formed_of_isFree hfree, nofun⟩
  unfold emptyNode
  mvcgen
  simp_all [Piece.Good, leaf]

/-! Lists -/

@[spec]
theorem yields_commaSeparated (inside : Bool) {item : Rule Piece} (hitem : item.Yields Piece.Good) :
    (commaSeparated inside item).Yields GoodAll := by
  unfold commaSeparated
  mvcgen [hitem]
  all_goals simp_all

@[spec]
theorem yields_optionalSymbol (inside : Bool) (text : String) :
    (optionalSymbol inside text).Yields GoodAll := by
  unfold optionalSymbol
  mvcgen
  all_goals simp_all

@[spec]
theorem yields_bracketed (opening closing : String) {item : Rule Piece}
    (hitem : item.Yields Piece.Good) : (bracketed opening closing item).Yields GoodAll := by
  unfold bracketed
  mvcgen [hitem]
  all_goals simp_all

end Rule

end CodeGraph.Syntax
