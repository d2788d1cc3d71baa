import CodeGraph.Proofs.Syntax.Rules

namespace CodeGraph.Syntax

/-! A name with dots runs from its first word to its last, so that it does not end in a dot. -/

/-- The tokens left are sound and stand at the offset or behind it. -/
def Stream.SoundFrom (offset : Nat) (source : Source) (stream : Stream) : Prop :=
  stream.Sound source ∧ ∀ token ∈ stream.tokens, offset ≤ token.start.offset

theorem Stream.SoundFrom.rest {offset : Nat} {source : Source} {stream : Stream}
    (hsound : stream.SoundFrom offset source) {token : Token} {rest : List Token}
    (htokens : stream.tokens = token :: rest) (last : Position) :
    ({ tokens := rest, last } : Stream).SoundFrom offset source :=
  ⟨hsound.1.rest htokens last, fun other hmem =>
    hsound.2 other (htokens ▸ List.mem_cons_of_mem token hmem)⟩

namespace Rule

/-- A word of the text, at the offset or behind it. -/
def IsWordFrom (offset : Nat) (source : Source) (piece : Piece) : Prop :=
  ∃ token : Token, token.Sound source.text.toList ∧ token.lexeme = .word ∧
    offset ≤ token.start.offset ∧ piece = ofToken .identifier token

theorem anyName_from {offset : Nat} {source : Source} {stream later : Stream} {piece : Piece}
    (hsound : stream.SoundFrom offset source)
    (hfound : anyName source stream = some (piece, later)) :
    later.SoundFrom offset source ∧ piece.Good ∧ IsWordFrom offset source piece := by
  obtain ⟨token, rest, htokens, hword, rfl, rfl⟩ := anyName_eq hfound
  have htoken := hsound.1.first htokens
  have hfrom := hsound.2 token (htokens ▸ List.mem_cons_self)
  exact ⟨hsound.rest htokens token.stop, (isName_ofToken htoken hword).1.1,
    token, htoken, hword, hfrom, rfl⟩

/-- Good pieces, the last of which is a word at the offset or behind it. -/
structure EndsInWord (offset : Nat) (source : Source) (pieces : List Piece) : Prop where
  good : GoodAll pieces
  word : ∀ last ∈ pieces.getLast?, IsWordFrom offset source last

theorem EndsInWord.append {offset : Nat} {source : Source} {first second : List Piece}
    (hfirst : EndsInWord offset source first) (hsecond : EndsInWord offset source second) :
    EndsInWord offset source (first ++ second) where
  good := goodAll_append.mpr ⟨hfirst.good, hsecond.good⟩
  word := by
    intro last hmem
    rw [List.getLast?_append, Option.mem_def, Option.or_eq_some_iff] at hmem
    rcases hmem with hmem | ⟨-, hmem⟩
    · exact hsecond.word last hmem
    · exact hfirst.word last hmem

theorem endsInWord_of_dot {inside : Bool} {offset : Nat} {source : Source} {stream later : Stream}
    {pieces : List Piece} (hsound : stream.SoundFrom offset source)
    (hfound : (do
      check (← nextIsSymbol inside ".")
      pure [← symbol ".", ← anyName] : Rule (List Piece)) source stream = some (pieces, later)) :
    later.SoundFrom offset source ∧ EndsInWord offset source pieces := by
  obtain ⟨follows, same, hfollows, hchecked⟩ := bind_eq hfound
  obtain rfl := nextIsSymbol_eq hfollows
  obtain ⟨result, same, hresult, hdotted⟩ := bind_eq hchecked
  obtain rfl := check_eq hresult
  obtain ⟨dot, between, hdot, hnamed⟩ := bind_eq hdotted
  obtain ⟨token, rest, htokens, -, rfl, rfl⟩ := take_of_check_eq hdot
  obtain ⟨name, ending, hname, hpure⟩ := bind_eq hnamed
  cases hpure
  obtain ⟨hlater, hgood, hword⟩ := anyName_from (hsound.rest htokens token.stop) hname
  have hbare : IsBare .token (ofToken .token token) := isBare_ofToken (formed_leaf rfl _ _ _)
  exact ⟨hlater, by simp [hbare.1, hgood], by simpa using hword⟩

@[spec]
theorem yields_dottedName (inside : Bool) : (dottedName inside).Yields (IsBare .dottedName) := by
  refine yields_iff.mpr fun source stream piece later hsound hfound => ?_
  unfold dottedName at hfound
  obtain ⟨first, between, hfirst, hafter⟩ := bind_eq hfound
  obtain ⟨rest, ending, hrest, hnode⟩ := bind_eq hafter
  obtain ⟨token, tokens, htokens, hword, rfl, rfl⟩ := anyName_eq hfirst
  have htoken := hsound.first htokens
  have hname := isName_ofToken htoken hword
  have hbehind : Stream.SoundFrom token.start.offset source { tokens, last := token.stop } := by
    have hordered := hsound.ordered
    rw [htokens] at hordered
    exact ⟨hsound.rest htokens token.stop, (List.pairwise_cons.mp hordered).1⟩
  obtain ⟨hending, hrest⟩ := manyUpTo_keeps ⟨goodAll_nil, nofun⟩ EndsInWord.append
    endsInWord_of_dot source.bound (List.forall_mem_nil _) hbehind hrest
  have hpieces := EndsInWord.append
    ⟨goodAll_cons.mpr ⟨hname.1.1, goodAll_nil⟩, fun last hmem => by
      cases hmem
      exact ⟨token, htoken, hword, Nat.le_refl _, rfl⟩⟩ hrest
  obtain ⟨last, hlast⟩ : ∃ last, (ofToken .identifier token :: rest).getLast? = some last :=
    ⟨_, List.getLast?_cons⟩
  obtain ⟨other, hother, hwordOther, hle, rfl⟩ := hpieces.word last hlast
  obtain ⟨first, others, hcons, rfl, hextras, stop, htree, hstop⟩ := node_eq hnode
  cases hcons
  rw [getLast?_childrenOf, hlast] at hstop
  have hformed := lastSegment_extract_ne_empty htoken hother hwordOther hle
  refine ⟨hending.1, ⟨?_, ?_⟩, by rw [htree]; rfl, by rw [htree]; rfl⟩
  · rw [hextras]
    exact hname.1.1.1
  · rw [htree, hstop]
    exact SyntaxTree.grammatical_node.mpr ⟨hformed, hpieces.good.childrenOf⟩

end Rule

end CodeGraph.Syntax
