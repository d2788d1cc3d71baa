import CodeGraph.Proofs.Chunk.Outdent
import CodeGraph.TypeHint
import Mathlib.Data.List.Forall2

namespace CodeGraph

/-! Texts that differ in the lengths of their gaps.  A type hint names the same class in both. -/

namespace Text

/-- The texts are the same, except that where one has blanks the other may have other blanks, at
least one. -/
inductive Respaced : List Char → List Char → Prop
  | nil : Respaced [] []
  | char {c : Char} {text other : List Char} (hc : isBlank c = false)
      (hrest : Respaced text other) : Respaced (c :: text) (c :: other)
  | gap {blanks blanks' text other : List Char} (hne : blanks ≠ []) (hne' : blanks' ≠ [])
      (hblank : ∀ c ∈ blanks, isBlank c = true) (hblank' : ∀ c ∈ blanks', isBlank c = true)
      (hrest : Respaced text other) : Respaced (blanks ++ text) (blanks' ++ other)

namespace Respaced

theorem symm {text other : List Char} (hsame : Respaced text other) : Respaced other text := by
  induction hsame with
  | nil => exact .nil
  | char hc _ ih => exact .char hc ih
  | gap hne hne' hblank hblank' _ ih => exact .gap hne' hne hblank' hblank ih

theorem cons (c : Char) {text other : List Char} (hsame : Respaced text other) :
    Respaced (c :: text) (c :: other) := by
  cases hc : isBlank c with
  | false => exact .char hc hsame
  | true =>
      have hblank : ∀ d ∈ [c], isBlank d = true := by simpa using hc
      exact .gap (List.cons_ne_nil c []) (List.cons_ne_nil c []) hblank hblank hsame

theorem refl (text : List Char) : Respaced text text := by
  induction text with
  | nil => exact .nil
  | cons c rest ih => exact ih.cons c

theorem append {text other text' other' : List Char} (hsame : Respaced text other)
    (hsame' : Respaced text' other') : Respaced (text ++ text') (other ++ other') := by
  induction hsame with
  | nil => exact hsame'
  | char hc _ ih => exact .char hc ih
  | gap hne hne' hblank hblank' _ ih =>
      rw [List.append_assoc, List.append_assoc]
      exact .gap hne hne' hblank hblank' ih

theorem of_blanks {blanks blanks' : List Char} (hne : blanks ≠ []) (hne' : blanks' ≠ [])
    (hblank : ∀ c ∈ blanks, isBlank c = true) (hblank' : ∀ c ∈ blanks', isBlank c = true) :
    Respaced blanks blanks' := by
  simpa using Respaced.gap hne hne' hblank hblank' .nil

theorem reverse {text other : List Char} (hsame : Respaced text other) :
    Respaced text.reverse other.reverse := by
  induction hsame with
  | nil => exact .nil
  | char hc _ ih =>
      rw [List.reverse_cons, List.reverse_cons]
      exact ih.append (refl _)
  | gap hne hne' hblank hblank' _ ih =>
      rw [List.reverse_append, List.reverse_append]
      exact ih.append (of_blanks (by simpa using hne) (by simpa using hne') (by simpa using hblank)
        (by simpa using hblank'))

/-! A character that is no blank stands in both texts. -/

theorem cons_inv {c : Char} (hc : isBlank c = false) {rest other : List Char}
    (hsame : Respaced (c :: rest) other) : ∃ rest', other = c :: rest' ∧ Respaced rest rest' := by
  generalize htext : c :: rest = text at hsame
  cases hsame with
  | nil => cases htext
  | char _ hrest =>
      cases htext
      exact ⟨_, rfl, hrest⟩
  | @gap blanks _ _ _ hne _ hblank _ _ =>
      cases blanks with
      | nil => exact absurd rfl hne
      | cons d blanks =>
          rw [List.cons_append, List.cons.injEq] at htext
          have hd := hblank d List.mem_cons_self
          rw [← htext.1, hc] at hd
          cases hd

theorem mem_iff {c : Char} (hc : isBlank c = false) {text other : List Char}
    (hsame : Respaced text other) : c ∈ text ↔ c ∈ other := by
  have hnone : ∀ blanks : List Char, (∀ d ∈ blanks, isBlank d = true) → c ∉ blanks := by
    intro blanks hblank hmem
    rw [hblank c hmem] at hc
    cases hc
  induction hsame with
  | nil => rfl
  | char _ _ ih => simp only [List.mem_cons, ih]
  | gap _ _ hblank hblank' _ ih =>
      simp only [List.mem_append, hnone _ hblank, hnone _ hblank', false_or, ih]

theorem isEmpty_eq {text other : List Char} (hsame : Respaced text other) :
    text.isEmpty = other.isEmpty := by
  induction hsame with
  | nil => rfl
  | char => rfl
  | gap hne hne' => rw [Bool.eq_iff_iff]; simp [hne, hne']

/-- A text without blanks is the same as any other that differs in its gaps only. -/
theorem eq_of_no_blank {text other : List Char} (hsame : Respaced text other)
    (hnone : ∀ c ∈ text, isBlank c = false) : text = other := by
  induction hsame with
  | nil => rfl
  | char _ _ ih => rw [ih (List.forall_mem_cons.mp hnone).2]
  | @gap blanks _ _ _ hne _ hblank _ _ _ =>
      obtain ⟨c, hmem⟩ := List.exists_mem_of_ne_nil blanks hne
      have hc := hnone c (List.mem_append_left _ hmem)
      rw [hblank c hmem] at hc
      cases hc

theorem squeeze_eq {text other : List Char} (hsame : Respaced text other) :
    squeeze text = squeeze other := by
  have hnone : ∀ blanks : List Char, (∀ c ∈ blanks, isBlank c = true) → squeeze blanks = [] := by
    intro blanks hblank
    simpa [squeeze] using hblank
  induction hsame with
  | nil => rfl
  | @char c text other hc _ ih =>
      have hkept : ∀ rest, squeeze (c :: rest) = c :: squeeze rest :=
        fun rest => List.filter_cons_of_pos (by simp [hc])
      rw [hkept, hkept, ih]
  | gap _ _ hblank hblank' _ ih =>
      have happend : ∀ first second, squeeze (first ++ second) = squeeze first ++ squeeze second :=
        fun first second => List.filter_append ..
      rw [happend, happend, hnone _ hblank, hnone _ hblank', ih]

/-! Parts of a text -/

section

variable {accepts : Char → Bool} (haccepts : ∀ c, isBlank c = true → accepts c = true)

include haccepts

theorem takeWhile {text other : List Char} (hsame : Respaced text other) :
    Respaced (text.takeWhile accepts) (other.takeWhile accepts) := by
  induction hsame with
  | nil => exact .nil
  | char hc _ ih =>
      rw [List.takeWhile_cons, List.takeWhile_cons]
      split
      · exact .char hc ih
      · exact .nil
  | gap hne hne' hblank hblank' _ ih =>
      rw [List.takeWhile_append_of_pos fun c hmem => haccepts c (hblank c hmem),
        List.takeWhile_append_of_pos fun c hmem => haccepts c (hblank' c hmem)]
      exact .gap hne hne' hblank hblank' ih

theorem dropWhile {text other : List Char} (hsame : Respaced text other) :
    Respaced (text.dropWhile accepts) (other.dropWhile accepts) := by
  induction hsame with
  | nil => exact .nil
  | char hc hrest ih =>
      rw [List.dropWhile_cons, List.dropWhile_cons]
      split
      · exact ih
      · exact .char hc hrest
  | gap _ _ hblank hblank' _ ih =>
      rw [List.dropWhile_append_of_pos fun c hmem => haccepts c (hblank c hmem),
        List.dropWhile_append_of_pos fun c hmem => haccepts c (hblank' c hmem)]
      exact ih

end

theorem trim {text other : List Char} (hsame : Respaced text other) :
    Respaced (Text.trim text) (Text.trim other) :=
  (((hsame.dropWhile fun _ => id).reverse).dropWhile fun _ => id).reverse

theorem ne_of_isBlank {c separator : Char} (hseparator : isBlank separator = false)
    (hc : isBlank c = true) : c ≠ separator := by
  rintro rfl
  rw [hc] at hseparator
  cases hseparator

theorem beforeFirst (separator : Char) (hseparator : isBlank separator = false)
    {text other : List Char} (hsame : Respaced text other) :
    Respaced (Text.beforeFirst separator text) (Text.beforeFirst separator other) :=
  hsame.takeWhile fun c hc => by simpa using ne_of_isBlank hseparator hc

theorem afterLast (separator : Char) (hseparator : isBlank separator = false)
    {text other : List Char} (hsame : Respaced text other) :
    Respaced (Text.afterLast separator text) (Text.afterLast separator other) :=
  (hsame.reverse.takeWhile fun c hc => by simpa using ne_of_isBlank hseparator hc).reverse

end Respaced

namespace Respaced

/-- What stands behind the first separator. -/
theorem drop_beforeFirst (separator : Char) (hseparator : isBlank separator = false)
    {text other : List Char} (hsame : Respaced text other) :
    Respaced (text.drop ((Text.beforeFirst separator text).length + 1))
      (other.drop ((Text.beforeFirst separator other).length + 1)) := by
  have hdrop : ∀ chars : List Char, chars.drop ((Text.beforeFirst separator chars).length + 1) =
      (chars.dropWhile (· ≠ separator)).tail := by
    intro chars
    rw [← List.tail_drop, Text.beforeFirst]
    nth_rewrite 2 [← List.takeWhile_append_dropWhile (p := (· ≠ separator)) (l := chars)]
    rw [List.drop_left]
  have hother : ∀ c, isBlank c = true → decide (c ≠ separator) = true :=
    fun c hc => decide_eq_true (ne_of_isBlank hseparator hc)
  have hbehind := hsame.dropWhile hother
  rw [hdrop, hdrop]
  cases hfound : text.dropWhile (· ≠ separator) with
  | nil =>
      rw [hfound] at hbehind
      rw [← hbehind.eq_of_no_blank (List.forall_mem_nil _)]
      exact .nil
  | cons c rest =>
      have hc : c = separator := by
        have hstop := List.head?_dropWhile_not (· ≠ separator) text
        rw [hfound] at hstop
        simpa using hstop
      rw [hfound, hc] at hbehind
      obtain ⟨rest', hfound', hrest⟩ := hbehind.cons_inv hseparator
      rw [hfound']
      exact hrest

end Respaced

/-! Outdenting -/

/-- What may go from the start of the text is blank. -/
theorem outdentFrom_eq_zero (width left : Nat) (text : List Char) :
    ∃ blanks rest, text = blanks ++ rest ∧ (∀ c ∈ blanks, isBlank c = true) ∧
      outdentFrom width left text = outdentFrom width 0 rest := by
  induction text generalizing left with
  | nil => exact ⟨[], [], rfl, List.forall_mem_nil _, rfl⟩
  | cons c rest ih =>
      by_cases htaken : c ≠ '\n' ∧ left ≠ 0 ∧ (c = ' ' ∨ c = '\t')
      · obtain ⟨hbreak, hleft, hblank⟩ := htaken
        obtain ⟨blanks, kept, rfl, hblanks, heq⟩ := ih (left - 1)
        refine ⟨c :: blanks, kept, rfl, List.forall_mem_cons.mpr ⟨?_, hblanks⟩, ?_⟩
        · rcases hblank with rfl | rfl <;> decide
        · rw [outdentFrom, if_neg hbreak, if_pos ⟨hleft, hblank⟩, heq]
      · refine ⟨[], c :: rest, rfl, List.forall_mem_nil _, ?_⟩
        rw [outdentFrom, outdentFrom]
        split
        · rfl
        · next hbreak =>
            rw [if_neg fun hboth => htaken ⟨hbreak, hboth⟩, if_neg fun hboth => hboth.1 rfl]

theorem respaced_outdentFrom (width : Nat) (text : List Char) :
    Respaced text (outdentFrom width 0 text) := by
  induction hlength : text.length using Nat.strongRecOn generalizing text with
  | _ length ih =>
      cases text with
      | nil => exact .nil
      | cons c rest =>
          rw [List.length_cons] at hlength
          rw [outdentFrom]
          split
          · next hbreak =>
              obtain ⟨blanks, kept, rfl, hblanks, heq⟩ := outdentFrom_eq_zero width width rest
              rw [List.length_append] at hlength
              have hc : isBlank c = true := by rw [hbreak]; decide
              rw [heq]
              exact .gap (List.cons_ne_nil c blanks) (List.cons_ne_nil c [])
                (List.forall_mem_cons.mpr ⟨hc, hblanks⟩) (by simpa using hc)
                (ih kept.length (by omega) kept rfl)
          · rw [if_neg fun hboth => hboth.1 rfl]
            exact (ih rest.length (by omega) rest rfl).cons c

end Text

namespace TypeHint

open Text

/-! Names have no blanks. -/

theorem mem_of_inRanges {ranges : List (Nat × Nat)} {code : Nat}
    (hin : inRanges ranges code = true) :
    code ∈ ranges.flatMap fun range => List.range' range.1 (range.2 + 1 - range.1) := by
  induction ranges with
  | nil => cases hin
  | cons range rest ih =>
      rw [List.flatMap_cons, List.mem_append]
      rw [inRanges] at hin
      split at hin
      · cases hin
      · next hlow =>
          rcases Bool.or_eq_true_iff.mp hin with hhigh | hrest
          · have hle := of_decide_eq_true hhigh
            exact .inl (List.mem_range'_1.mpr (by omega))
          · exact .inr (ih hrest)

theorem isAlphanumeric_of_isBlank {c : Char} (hc : isBlank c = true) :
    isAlphanumeric c = false := by
  have hnone : ∀ code ∈ blankRanges.flatMap fun range =>
      List.range' range.1 (range.2 + 1 - range.1),
      ((alphabeticRanges.any fun ranges => inRanges ranges code) ||
        numericRanges.any fun ranges => inRanges ranges code) = false := by
    decide +kernel
  exact hnone _ (mem_of_inRanges hc)

theorem isBlank_of_isName {name : List Char} (hname : isName name = true) :
    ∀ c ∈ name, isBlank c = false := by
  intro c hmem
  cases name with
  | nil => cases hmem
  | cons first rest =>
      have hall := (Bool.and_eq_true_iff.mp hname).2
      have hc := List.all_eq_true.mp hall c hmem
      by_contra hblank
      rw [Bool.not_eq_false] at hblank
      rw [isAlphanumeric_of_isBlank hblank, Bool.false_or, beq_iff_eq] at hc
      rw [hc] at hblank
      revert hblank
      decide

/-! The class of a hint -/

theorem exists_unquote? {quote : Char} (hquote : isBlank quote = false)
    {text other inner : List Char} (hsame : Respaced text other)
    (hinner : unquote? quote text = some inner) :
    ∃ inner', unquote? quote other = some inner' ∧ Respaced inner inner' := by
  cases text with
  | nil => cases hinner
  | cons first rest =>
      rw [unquote?] at hinner
      split at hinner
      · next hquotes =>
          obtain ⟨rfl, hlast⟩ := hquotes
          cases hinner
          obtain ⟨rest', rfl, hrest⟩ := hsame.cons_inv hquote
          obtain ⟨before, rfl⟩ := List.getLast?_eq_some_iff.mp hlast
          have hreverse := hrest.reverse
          rw [List.reverse_append] at hreverse
          obtain ⟨before', hbefore', hinside⟩ := hreverse.cons_inv hquote
          rw [List.reverse_eq_cons_iff] at hbefore'
          refine ⟨Text.trim before'.reverse, ?_, ?_⟩
          · rw [hbefore', unquote?, List.dropLast_concat]
            exact if_pos ⟨rfl, List.getLast?_concat⟩
          · rw [List.dropLast_concat]
            simpa using hinside.reverse.trim
      · cases hinner

theorem rel_unquote? (quote : Char) (hquote : isBlank quote = false) {text other : List Char}
    (hsame : Respaced text other) :
    Option.Rel Respaced (unquote? quote text) (unquote? quote other) := by
  cases hinner : unquote? quote text with
  | some inner =>
      obtain ⟨inner', hinner', hinside⟩ := exists_unquote? hquote hsame hinner
      rw [hinner']
      exact .some hinside
  | none =>
      cases hinner' : unquote? quote other with
      | none => exact .none
      | some inner' =>
          obtain ⟨found, hfound, -⟩ := exists_unquote? hquote hsame.symm hinner'
          rw [hinner] at hfound
          cases hfound

theorem respaced_stripQuotes {text other : List Char} (hsame : Respaced text other) :
    Respaced (stripQuotes text) (stripQuotes other) := by
  have hdouble := rel_unquote? '"' (by decide) hsame.trim
  have hsingle := rel_unquote? '\'' (by decide) hsame.trim
  have hchoose : ∀ {first first' second second'}, Option.Rel Respaced first first' →
      Option.Rel Respaced second second' →
      Respaced ((first.orElse fun _ => second).getD (Text.trim text))
        ((first'.orElse fun _ => second').getD (Text.trim other)) := by
    intro first first' second second' hfirst hsecond
    cases hfirst with
    | some hinside => exact hinside
    | none =>
        cases hsecond with
        | some hinside => exact hinside
        | none => exact hsame.trim
  exact hchoose hdouble hsingle

theorem splitTop_append {separator : Char} (hseparator : isBlank separator = false)
    {blanks : List Char} (hblank : ∀ c ∈ blanks, isBlank c = true) (depth : Int) (isFirst : Bool)
    (done text : List Char) :
    splitTop separator depth isFirst done (blanks ++ text) =
      splitTop separator depth isFirst (blanks.reverse ++ done) text := by
  induction blanks generalizing done with
  | nil => rfl
  | cons c rest ih =>
      obtain ⟨hc, hrest⟩ := List.forall_mem_cons.mp hblank
      have hother : ∀ d, isBlank d = false → c ≠ d := fun d hd => Respaced.ne_of_isBlank hd hc
      rw [List.cons_append, splitTop,
        if_neg (by simp [hother '[' (by decide), hother '(' (by decide)]),
        if_neg (by simp [hother ']' (by decide), hother ')' (by decide)]),
        if_neg (by simp [hother separator hseparator]), ih hrest]
      simp

/-- Parts between separators correspond to each other. -/
theorem respaced_splitTop {separator : Char} (hseparator : isBlank separator = false) (depth : Int)
    (isFirst : Bool) {done done' text other : List Char} (hdone : Respaced done done')
    (hsame : Respaced text other) :
    List.Forall₂ Respaced (splitTop separator depth isFirst done text)
      (splitTop separator depth isFirst done' other) := by
  induction hsame generalizing depth isFirst done done' with
  | nil =>
      have hpart := hdone.reverse.trim
      rw [splitTop, splitTop, hpart.isEmpty_eq]
      split
      · exact .nil
      · exact .cons hpart .nil
  | char hc _ ih =>
      rw [splitTop, splitTop]
      split
      · exact ih _ _ (hdone.cons _)
      · split
        · exact ih _ _ (hdone.cons _)
        · split
          · exact .cons hdone.reverse.trim (ih _ _ .nil)
          · exact ih _ _ (hdone.cons _)
  | gap hne hne' hblank hblank' _ ih =>
      rw [splitTop_append hseparator hblank, splitTop_append hseparator hblank']
      refine ih _ _ (Respaced.append ?_ hdone)
      exact .of_blanks (by simpa using hne) (by simpa using hne') (by simpa using hblank)
        (by simpa using hblank')

theorem respaced_topParts (separator : Char) (hseparator : isBlank separator = false)
    {text other : List Char} (hsame : Respaced text other) :
    List.Forall₂ Respaced (topParts separator text) (topParts separator other) :=
  respaced_splitTop hseparator 0 true .nil hsame

theorem contains_eq {c : Char} (hc : isBlank c = false) {text other : List Char}
    (hsame : Respaced text other) : text.contains c = other.contains c := by
  rw [Bool.eq_iff_iff, List.contains_iff_mem, List.contains_iff_mem, hsame.mem_iff hc]

theorem simpleName?_eq {text other : List Char} (hsame : Respaced text other) :
    simpleName? text = simpleName? other := by
  have hinside := respaced_stripQuotes hsame
  have hname := hinside.afterLast '.' (by decide)
  rw [simpleName?, simpleName?, hinside.isEmpty_eq, contains_eq (by decide) hinside,
    contains_eq (by decide) hinside]
  dsimp only
  split
  · rfl
  · cases hfirst : isName (Text.afterLast '.' (stripQuotes text)) with
    | true => rw [← hname.eq_of_no_blank (isBlank_of_isName hfirst), hfirst]
    | false =>
        cases hsecond : isName (Text.afterLast '.' (stripQuotes other)) with
        | false => rfl
        | true =>
            rw [← hname.symm.eq_of_no_blank (isBlank_of_isName hsecond), hsecond] at hfirst
            cases hfirst

theorem isBlank_of_all {word : List Char} (hall : (word.all fun c => !isBlank c) = true) :
    ∀ c ∈ word, isBlank c = false := by
  intro c hmem
  simpa using List.all_eq_true.mp hall c hmem

/-- A text without blanks is told apart from others by what it is up to its gaps. -/
theorem eq_iff {text other : List Char} (hsame : Respaced text other) (word : List Char)
    (hword : ∀ c ∈ word, isBlank c = false) : text = word ↔ other = word := by
  constructor
  · rintro rfl
    exact (hsame.eq_of_no_blank hword).symm
  · rintro rfl
    exact (hsame.symm.eq_of_no_blank hword).symm

theorem rel_firstPresent? {parts others : List (List Char)}
    (hsame : List.Forall₂ Respaced parts others) :
    Option.Rel Respaced (firstPresent? parts) (firstPresent? others) := by
  induction hsame with
  | nil => exact .none
  | @cons part other _ _ hpart _ ih =>
      have hpresent : (stripQuotes part != "None".toList) =
          (stripQuotes other != "None".toList) := by
        rw [Bool.eq_iff_iff, bne_iff_ne, bne_iff_ne]
        exact not_congr (eq_iff (respaced_stripQuotes hpart) _ (isBlank_of_all (by decide)))
      rw [firstPresent?, List.find?_cons, firstPresent?, List.find?_cons, hpresent]
      split
      · exact .some hpart
      · exact ih

theorem bind_eq_of_rel {first second : Option (List Char)}
    (hsame : Option.Rel Respaced first second) :
    first.bind simpleName? = second.bind simpleName? := by
  cases hsame with
  | none => rfl
  | some hinside => exact simpleName?_eq hinside

theorem rel_head? {parts others : List (List Char)} (hsame : List.Forall₂ Respaced parts others) :
    Option.Rel Respaced parts.head? others.head? := by
  cases hsame with
  | nil => exact .none
  | cons hpart _ => exact .some hpart

/-- What stands between the outermost brackets. -/
theorem respaced_between {text other : List Char} (hsame : Respaced text other) :
    Respaced (text.take (text.length - (Text.afterLast ']' text).length - 1))
      (other.take (other.length - (Text.afterLast ']' other).length - 1)) := by
  have htake : ∀ chars : List Char,
      chars.take (chars.length - (Text.afterLast ']' chars).length - 1) =
        (chars.reverse.drop ((Text.beforeFirst ']' chars.reverse).length + 1)).reverse := by
    intro chars
    rw [List.drop_reverse, List.reverse_reverse, Text.afterLast, Text.beforeFirst,
      List.length_reverse, Nat.sub_add_eq]
  rw [htake, htake]
  exact (hsame.reverse.drop_beforeFirst ']' (by decide)).reverse

theorem rel_splitSubscript? {text other : List Char} (hsame : Respaced text other) :
    Option.Rel (fun one two => Respaced one.1 two.1 ∧ Respaced one.2 two.2) (splitSubscript? text)
      (splitSubscript? other) := by
  have hinner := hsame.drop_beforeFirst '[' (by decide)
  rw [splitSubscript?, splitSubscript?, contains_eq (by decide) hinner]
  split
  · exact .some ⟨hsame.beforeFirst '[' (by decide), respaced_between hinner⟩
  · exact .none

theorem peelable_contains_eq {container container' : List Char}
    (hsame : Respaced container container') :
    peelable.contains container = peelable.contains container' := by
  have hwords : ∀ word ∈ peelable, (word.all fun c => !isBlank c) = true := by decide
  rw [Bool.eq_iff_iff, List.contains_iff_mem, List.contains_iff_mem]
  constructor
  · intro hmem
    rwa [← hsame.eq_of_no_blank (isBlank_of_all (hwords _ hmem))]
  · intro hmem
    rwa [← hsame.symm.eq_of_no_blank (isBlank_of_all (hwords _ hmem))]

theorem classChars?_eq {text other : List Char} (hsame : Respaced text other) :
    classChars? text = classChars? other := by
  have hinside := respaced_stripQuotes hsame
  have hmembers := respaced_topParts '|' (by decide) hinside
  have hsubscript := rel_splitSubscript? hinside
  rw [classChars?, classChars?, hmembers.length_eq, bind_eq_of_rel (rel_firstPresent? hmembers),
    contains_eq (by decide) hinside, simpleName?_eq hinside]
  generalize splitSubscript? (stripQuotes text) = found at hsubscript ⊢
  generalize splitSubscript? (stripQuotes other) = found' at hsubscript ⊢
  cases hsubscript with
  | none => rfl
  | some hparts =>
      have hcontainer := hparts.1.trim.afterLast '.' (by decide)
      have harguments := respaced_topParts ',' (by decide) hparts.2
      have hunion := eq_iff hcontainer "Union".toList (isBlank_of_all (by decide))
      simp only [beq_iff_eq, hunion, peelable_contains_eq hcontainer,
        bind_eq_of_rel (rel_firstPresent? harguments), bind_eq_of_rel (rel_head? harguments)]

/-- A hint names the same class however its parts are spaced. -/
theorem className?_eq {hint other : String} (hsame : Respaced hint.toList other.toList) :
    className? hint = className? other := by
  rw [className?, className?, classChars?_eq hsame]

end TypeHint

end CodeGraph
