import CodeGraph.Syntax.Scan
import CodeGraph.Text.Split
import Mathlib.Data.List.TakeDrop
import Mathlib.Data.List.TakeWhile
import Mathlib.Data.String.Basic

namespace CodeGraph.Syntax

/-! Every token stands in the text where it says, and the tokens come in the order of the text. -/

open String (utf8Len)

theorem append_span (accepts : Char → Bool) (text : List Char) :
    (text.span accepts).1 ++ (text.span accepts).2 = text := by
  rw [List.span_eq_takeWhile_dropWhile]
  exact List.takeWhile_append_dropWhile

namespace Numeral

theorem append_suffix (letters text : List Char) :
    (suffix letters text).1 ++ (suffix letters text).2 = text := by
  fun_cases suffix <;> rfl

theorem append_exponent (text : List Char) : (exponent text).1 ++ (exponent text).2 = text := by
  fun_cases exponent with
  | case1 e c d rest _ digits after hspan =>
      have happend := append_span isDigit (d :: rest)
      rw [hspan] at happend
      exact congrArg (fun tail => e :: c :: tail) happend
  | case2 => rfl
  | case3 => rfl
  | case4 => rfl
  | case5 => rfl

theorem append_fraction (text : List Char) : (fraction text).1 ++ (fraction text).2 = text := by
  fun_cases fraction with
  | case1 c rest _ digits after hspan =>
      have happend := append_span isDigit (c :: rest)
      rw [hspan] at happend
      exact congrArg ('.' :: ·) happend
  | case2 => rfl
  | case3 => rfl
  | case4 => rfl

theorem append_decimal (text : List Char) : (decimal text).2.1 ++ (decimal text).2.2 = text := by
  simp only [decimal, List.append_assoc]
  rw [append_suffix, append_exponent, append_fraction, append_span]

theorem append_split (text : List Char) : (split text).2.1 ++ (split text).2.2 = text := by
  fun_cases split with
  | case1 base c rest _ digits after hspan mark last hmark =>
      have hdigits := append_span (isBaseDigit base) (c :: rest)
      have hlast := append_suffix ['l', 'L'] after
      rw [hspan] at hdigits
      rw [hmark] at hlast
      dsimp only at hdigits hlast ⊢
      rw [List.append_assoc, hlast]
      exact congrArg (fun tail => '0' :: base :: tail) hdigits
  | case2 => exact append_decimal _
  | case3 => exact append_decimal _

end Numeral

namespace Delimiter

theorem append_ofFlags {flags text opening after : List Char} {delimiter : Delimiter}
    (hopens : ofFlags flags text = some (delimiter, opening, after)) :
    opening ++ after = flags ++ text := by
  cases text with
  | nil => cases hopens
  | cons c rest =>
      simp only [ofFlags] at hopens
      split at hopens
      · split at hopens
        · next d e others =>
            split at hopens
            · next htriple =>
                cases hopens
                simp only [Bool.and_eq_true, beq_iff_eq] at htriple
                simp [htriple.1.2, htriple.2]
            · cases hopens
              simp
        · cases hopens
          simp
      · cases hopens

theorem append_splitContent (delimiter : Delimiter) (inName : Bool) (done text : List Char) :
    (delimiter.splitContent inName done text).1 ++ (delimiter.splitContent inName done text).2 =
      done.reverse ++ text := by
  fun_induction splitContent delimiter inName done text <;> simp_all

theorem append_closing {delimiter : Delimiter} {text : List Char}
    (hcloses : delimiter.closes text = true) :
    delimiter.closing ++ text.drop delimiter.closing.length = text := by
  obtain ⟨rest, rfl⟩ := List.isPrefixOf_iff_prefix.mp hcloses
  rw [List.drop_left]

end Delimiter

theorem Position.offset_afterAll (place : Position) (text : List Char) :
    (place.afterAll text).offset = place.offset + utf8Len text := by
  induction text generalizing place with
  | nil => rfl
  | cons c rest ih =>
      rw [afterAll_cons, ih, String.utf8Len_cons, after]
      split
      · next hbreak =>
          subst hbreak
          have hsize : '\n'.utf8Size = 1 := rfl
          dsimp only
          omega
      · dsimp only
        omega

namespace Scan

theorem append_symbolOf (text : List Char) :
    symbolOf text ++ text.drop (symbolOf text).length = text := by
  unfold symbolOf
  cases hfound : symbols.find? fun symbol => symbol.isPrefixOf text with
  | none => cases text <;> simp
  | some symbol =>
      have hstarts := List.find?_some hfound
      obtain ⟨rest, hrest⟩ := List.isPrefixOf_iff_prefix.mp hstarts
      rw [Option.getD_some, ← hrest, List.drop_left]

theorem append_skipBlanks (gap : Gap) (place : Position) (text : List Char) :
    ∃ blanks, text = blanks ++ (skipBlanks gap place text).2.2 ∧
      (skipBlanks gap place text).2.1.offset = place.offset + utf8Len blanks := by
  induction text generalizing gap place with
  | nil => exact ⟨[], rfl, rfl⟩
  | cons c rest ih =>
      rw [skipBlanks]
      split
      · obtain ⟨blanks, hrest, hplace⟩ := ih (gap.add c) (place.after c)
        refine ⟨c :: blanks, congrArg (c :: ·) hrest, ?_⟩
        have hstep := Position.offset_afterAll place [c]
        rw [Position.afterAll_cons, Position.afterAll_nil, String.utf8Len_cons,
          String.utf8Len_nil] at hstep
        rw [hplace, hstep, String.utf8Len_cons]
        omega
      · exact ⟨[], rfl, rfl⟩

theorem append_continuation? {text mark after : List Char}
    (hfound : continuation? text = some (mark, after)) : mark ++ after = text := by
  unfold continuation? at hfound
  split at hfound
  · cases hfound
    rfl
  · cases hfound
    rfl
  · cases hfound

theorem append_skipExtras (fuel : Nat) (done : List Extra) (place : Position) (text : List Char) :
    ∃ skipped, text = skipped ++ (skipExtras fuel done place text).2.2.2 ∧
      (skipExtras fuel done place text).2.2.1.offset = place.offset + utf8Len skipped := by
  induction fuel generalizing done place text with
  | zero => exact ⟨[], rfl, rfl⟩
  | succ fuel ih =>
      rw [skipExtras]
      obtain ⟨blanks, htext, hstart⟩ := append_skipBlanks {} place text
      generalize skipBlanks {} place text = found at htext hstart ⊢
      obtain ⟨gap, start, rest⟩ := found
      dsimp only at htext hstart ⊢
      split
      · next isComment taken after hfound =>
          have htaken : taken ++ after = rest := by
            split at hfound
            · next others =>
                cases hfound
                exact append_span _ _
            · obtain ⟨⟨mark, left⟩, hmark, hsame⟩ := Option.map_eq_some_iff.mp hfound
              cases hsame
              exact append_continuation? hmark
          obtain ⟨skipped, hafter, hplace⟩ := ih _ (start.afterAll taken) after
          refine ⟨blanks ++ taken ++ skipped, ?_, ?_⟩
          · rw [List.append_assoc, List.append_assoc, ← hafter, htaken, htext]
          · rw [hplace, Position.offset_afterAll, hstart, String.utf8Len_append,
              String.utf8Len_append]
            omega
      · exact ⟨blanks, htext, hstart⟩

/-! Words -/

theorem continuesIdentifier_of_starts {c : Char} (hstarts : Text.startsIdentifier c = true) :
    Text.continuesIdentifier c = true := by
  rw [Text.startsIdentifier, Bool.or_eq_true, beq_iff_eq] at hstarts
  rcases hstarts with rfl | hstart
  · decide
  · rw [Text.continuesIdentifier, hstart, Bool.true_or]

def IsWord (text : List Char) : Prop :=
  text ≠ [] ∧ '.' ∉ text

theorem isWord_span {c : Char} {rest : List Char} (hstarts : Text.startsIdentifier c = true) :
    IsWord ((c :: rest).span Text.continuesIdentifier).1 := by
  rw [List.span_eq_takeWhile_dropWhile]
  constructor
  · simp [continuesIdentifier_of_starts hstarts]
  · intro hdot
    have hcontinues := List.mem_takeWhile_imp hdot
    revert hcontinues
    decide

/-- What a lexeme leaves of a text: all but itself, unless the text ends with it. -/
structure Splits (text : List Char) (found : Lexeme × List Char × List Char × List Frame) :
    Prop where
  append : found.2.1 ++ found.2.2.1 = text ∨ found.1 = .finish ∧ found.2.1 = []
  word : found.1 = .word → IsWord found.2.1

theorem splits_plain {text taken rest : List Char} {lexeme : Lexeme} {frames : List Frame}
    (happend : taken ++ rest = text) (hlexeme : lexeme ≠ .word) :
    Splits text (lexeme, taken, rest, frames) :=
  ⟨.inl happend, fun hword => absurd hword hlexeme⟩

theorem splits_lexemeOf (frames : List Frame) (text : List Char) :
    Splits text (lexemeOf frames text) := by
  cases text with
  | nil => exact splits_plain rfl nofun
  | cons c rest =>
      simp only [lexemeOf]
      split
      · next hstarts =>
          have hword : IsWord ((c :: rest).span Text.continuesIdentifier).1 := isWord_span hstarts
          have happend := append_span Text.continuesIdentifier (c :: rest)
          generalize (c :: rest).span Text.continuesIdentifier = found at hword happend ⊢
          obtain ⟨word, after⟩ := found
          dsimp only at hword happend ⊢
          split
          · next delimiter opening left hopens =>
              split at hopens
              · exact splits_plain ((Delimiter.append_ofFlags hopens).trans happend) nofun
              · cases hopens
          · split
            · next left =>
                split
                · refine splits_plain ?_ nofun
                  rw [List.append_assoc]
                  exact happend
                · exact ⟨.inl happend, fun _ => hword⟩
            · exact ⟨.inl happend, fun _ => hword⟩
      · split
        · split
          · next delimiter opening left hopens =>
              exact splits_plain (Delimiter.append_ofFlags hopens) nofun
          · exact splits_plain rfl nofun
        · split
          · refine splits_plain (Numeral.append_split (c :: rest)) ?_
            split <;> nofun
          · have hsymbol := append_symbolOf (c :: rest)
            split
            · split
              · exact splits_plain rfl nofun
              · split
                · exact splits_plain rfl nofun
                · split
                  · next d left hmark =>
                      cases hmark
                      split
                      · exact splits_plain rfl nofun
                      · exact splits_plain hsymbol nofun
                  · exact splits_plain hsymbol nofun
            · exact splits_plain hsymbol nofun

theorem splits_contentOf (frames : List Frame) (text : List Char) :
    Splits text (contentOf frames text) := by
  unfold contentOf
  split
  · next delimiter outer =>
      have hcontent := delimiter.append_splitContent false [] text
      dsimp only
      split
      · exact splits_plain hcontent nofun
      · split
        · next hcloses => exact splits_plain (Delimiter.append_closing hcloses) nofun
        · split
          · exact splits_plain rfl nofun
          · exact splits_plain rfl nofun
  · next outer c rest =>
      split
      · exact splits_plain rfl nofun
      · split
        · exact splits_plain rfl nofun
        · have hcontent :=
            append_span (fun d => d != '\x7b' && d != '\x7d' && d != '\n') (c :: rest)
          exact splits_plain hcontent nofun
  · exact ⟨.inr ⟨rfl, rfl⟩, nofun⟩

/-! Tokens in order -/

/-- The scanner has come this far in the text. -/
def Follows (text : List Char) (scan : Scan) : Prop :=
  ∃ before, text = before ++ scan.rest ∧ scan.place.offset = utf8Len before

end Scan

/-- The token stands in the text where it says, and a word is one. -/
structure Token.Sound (text : List Char) (token : Token) : Prop where
  located : ∃ before after, text = before ++ token.text.toList ++ after ∧
    token.start.offset = utf8Len before ∧
    token.stop.offset = utf8Len before + utf8Len token.text.toList
  word : token.lexeme = .word → Scan.IsWord token.text.toList

namespace Scan

structure Steps (text : List Char) (scan : Scan) (found : Token × Scan) : Prop where
  sound : found.1.Sound text
  start_le : scan.place.offset ≤ found.1.start.offset
  place_eq : found.2.place = found.1.stop
  follows : found.1.lexeme ≠ .finish → Follows text found.2

theorem start_le_stop {text : List Char} {token : Token} (hsound : token.Sound text) :
    token.start.offset ≤ token.stop.offset := by
  obtain ⟨before, after, -, hstart, hstop⟩ := hsound.located
  omega

theorem steps_next {text : List Char} {scan : Scan} (hfollows : Follows text scan) (fuel : Nat) :
    Steps text scan (scan.next fuel) := by
  obtain ⟨before, htext, hplace⟩ := hfollows
  -- whatever is skipped first, the lexeme is the start of what is left
  have hfinish : ∀ (extras : List Extra) (gap : Gap) (start : Position)
      (found : Lexeme × List Char × List Char × List Frame) (skipped left : List Char),
      scan.rest = skipped ++ left → start.offset = scan.place.offset + utf8Len skipped →
      Splits left found →
      Steps text scan
        ({ extras, gap, lexeme := found.1, text := String.ofList found.2.1, start,
            stop := start.afterAll found.2.1 },
          { place := start.afterAll found.2.1, rest := found.2.2.1, frames := found.2.2.2 }) := by
    intro extras gap start found skipped left hrest hstart hsplits
    have hstop := Position.offset_afterAll start found.2.1
    have hbefore : start.offset = utf8Len (before ++ skipped) := by
      rw [hstart, hplace, String.utf8Len_append]
    refine ⟨⟨?_, ?_⟩, ?_, rfl, ?_⟩
    · obtain ⟨after, hafter⟩ : ∃ after, found.2.1 ++ after = left := by
        rcases hsplits.append with happend | ⟨-, hnil⟩
        · exact ⟨_, happend⟩
        · exact ⟨left, by rw [hnil, List.nil_append]⟩
      refine ⟨before ++ skipped, after, ?_, hbefore, ?_⟩
      · rw [String.toList_ofList, List.append_assoc, List.append_assoc, hafter, ← hrest, ← htext]
      · rw [String.toList_ofList, hstop, hbefore]
    · intro hword
      rw [String.toList_ofList]
      exact hsplits.word hword
    · rw [hstart]
      omega
    · intro hgoes
      rcases hsplits.append with happend | ⟨hends, -⟩
      · refine ⟨before ++ skipped ++ found.2.1, ?_, ?_⟩
        · rw [List.append_assoc, List.append_assoc, happend, ← hrest, ← htext]
        · rw [hstop, hbefore, String.utf8Len_append _ found.2.1]
      · exact absurd hends hgoes
  unfold next
  dsimp only
  split
  · exact hfinish [] {} scan.place _ [] scan.rest rfl rfl (splits_contentOf _ _)
  · split
    · obtain ⟨blanks, hblanks, hstart⟩ := append_skipBlanks {} scan.place scan.rest
      exact hfinish [] _ _ _ blanks _ hblanks hstart (splits_contentOf _ _)
    · exact hfinish [] {} scan.place _ [] scan.rest rfl rfl (splits_contentOf _ _)
  · obtain ⟨skipped, hskipped, hstart⟩ := append_skipExtras fuel [] scan.place scan.rest
    exact hfinish _ _ _ _ skipped _ hskipped hstart (splits_lexemeOf _ _)

theorem collect_eq (fuel : Nat) (done : List Token) (scan : Scan) :
    collect fuel done scan = done.reverse ++ collect fuel [] scan := by
  induction fuel generalizing done scan with
  | zero => simp [collect]
  | succ fuel ih =>
      rw [collect, collect]
      generalize scan.next (fuel + 1) = found
      dsimp only
      split
      · simp
      · rw [ih, ih [found.1]]
        simp

/-- Sound tokens from an offset on, in order. -/
structure Listed (text : List Char) (offset : Nat) (tokens : List Token) : Prop where
  sound : ∀ token ∈ tokens, token.Sound text
  le : ∀ token ∈ tokens, offset ≤ token.start.offset
  ordered : tokens.Pairwise fun first second => first.start.offset ≤ second.start.offset

theorem listed_collect {text : List Char} (fuel : Nat) {scan : Scan}
    (hfollows : Follows text scan) :
    Listed text scan.place.offset (collect fuel [] scan) := by
  induction fuel generalizing scan with
  | zero => exact ⟨nofun, nofun, .nil⟩
  | succ fuel ih =>
      rw [collect]
      have hsteps := steps_next hfollows (fuel + 1)
      generalize scan.next (fuel + 1) = found at hsteps ⊢
      obtain ⟨token, later⟩ := found
      dsimp only at hsteps ⊢
      split
      · refine ⟨?_, ?_, List.pairwise_singleton _ _⟩
        · simpa using hsteps.sound
        · simpa using hsteps.start_le
      · next hgoes =>
          have hlater := ih (hsteps.follows (by simpa using hgoes))
          rw [hsteps.place_eq] at hlater
          have hstop := start_le_stop hsteps.sound
          have hafter : ∀ other ∈ collect fuel [] later,
              token.start.offset ≤ other.start.offset :=
            fun other hmem => Nat.le_trans hstop (hlater.le other hmem)
          rw [collect_eq, List.reverse_singleton, List.singleton_append]
          refine ⟨List.forall_mem_cons.mpr ⟨hsteps.sound, hlater.sound⟩,
            List.forall_mem_cons.mpr ⟨hsteps.start_le, fun other hmem => ?_⟩,
            List.pairwise_cons.mpr ⟨hafter, hlater.ordered⟩⟩
          exact Nat.le_trans hsteps.start_le (hafter other hmem)

end Scan

theorem listed_tokensOf (text : List Char) : Scan.Listed text 0 (tokensOf text) := by
  have hfollows : Scan.Follows text (.ofText text) := ⟨[], rfl, rfl⟩
  exact Scan.listed_collect _ hfollows

/-! The text between two tokens -/

theorem exists_between {text before after other left : List Char}
    (hbefore : text = before ++ after) (hother : text = other ++ left)
    (hle : utf8Len before ≤ utf8Len other) : ∃ between, other = before ++ between := by
  have hinitial : before <+: text := ⟨after, hbefore.symm⟩
  rcases List.prefix_or_prefix_of_prefix hinitial ⟨left, hother.symm⟩ with ⟨between, h⟩ | ⟨rest, h⟩
  · exact ⟨between, h.symm⟩
  · rw [← h, String.utf8Len_append] at hle
    have hnil : rest = [] := String.utf8Len_eq_zero.mp (by omega)
    exact ⟨[], by rw [← h, hnil, List.append_nil, List.append_nil]⟩

theorem afterLast_ne_nil {front word : List Char} (hword : Scan.IsWord word) :
    Text.afterLast '.' (front ++ word) ≠ [] := by
  have hall : ∀ c ∈ word.reverse, decide (c ≠ '.') = true := by
    intro c hmem
    simpa using fun heq : c = '.' => hword.2 (heq ▸ List.mem_reverse.mp hmem)
  rw [Text.afterLast, List.reverse_append, List.takeWhile_append_of_pos hall]
  simp [hword.1]

/-- A text that runs up to the end of a word does not end in a dot. -/
theorem lastSegment_extract_ne_empty {text : String} {first last : Token}
    (hfirst : first.Sound text.toList) (hlast : last.Sound text.toList)
    (hword : last.lexeme = .word) (hle : first.start.offset ≤ last.start.offset) :
    Text.lastSegment
      (String.Pos.Raw.extract text ⟨first.start.offset⟩ ⟨last.stop.offset⟩) ≠ "" := by
  obtain ⟨before, after, hbefore, hstart, -⟩ := hfirst.located
  obtain ⟨other, left, hother, hbegin, hstop⟩ := hlast.located
  rw [hstart, hbegin] at hle
  rw [List.append_assoc] at hbefore hother
  obtain ⟨between, rfl⟩ := exists_between hbefore hother hle
  have htext : text =
      String.ofList (before ++ (between ++ last.text.toList) ++ left) := by
    rw [← String.ofList_toList (s := text), hother]
    simp only [List.append_assoc]
  have hextract := String.extract_of_valid before (between ++ last.text.toList) left
  rw [← htext] at hextract
  have hend : last.stop.offset = utf8Len before + utf8Len (between ++ last.text.toList) := by
    rw [hstop, String.utf8Len_append, String.utf8Len_append, Nat.add_assoc]
  rw [hstart, hend, hextract, Text.lastSegment, String.toList_ofList]
  have hne : Text.afterLast '.' (between ++ last.text.toList) ≠ [] :=
    afterLast_ne_nil (hlast.word hword)
  simpa using hne

end CodeGraph.Syntax
