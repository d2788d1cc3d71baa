import CodeGraph.Proofs.Names.Respacing
import CodeGraph.Proofs.Text.Pieces

namespace CodeGraph.TypeHint

open Text

/-! How a hint is taken apart as a text: quotes around it, the split at separators outside of
brackets, and the split into a container and its arguments. -/

/-! Quotes -/

def quoteMarks : List Char := ['"', '\'']

theorem isBlank_of_mem_quoteMarks {mark : Char} (hmark : mark ∈ quoteMarks) :
    isBlank mark = false := by
  simp only [quoteMarks, List.mem_cons, List.not_mem_nil, or_false] at hmark
  rcases hmark with rfl | rfl <;> decide

/-- The text starts and ends with the same quote, blanks apart. -/
def Enclosed (text : List Char) : Prop :=
  ∃ mark ∈ quoteMarks, ∃ inner, trim text = mark :: (inner ++ [mark])

theorem unquote?_eq_some_iff {quote : Char} {text found : List Char} :
    unquote? quote text = some found ↔
      ∃ inner, text = quote :: (inner ++ [quote]) ∧ found = trim inner := by
  constructor
  · intro hfound
    cases text with
    | nil => cases hfound
    | cons first rest =>
        rw [unquote?] at hfound
        split at hfound
        · next hquotes =>
            obtain ⟨rfl, hlast⟩ := hquotes
            obtain ⟨inner, rfl⟩ := List.getLast?_eq_some_iff.mp hlast
            rw [List.dropLast_concat] at hfound
            exact ⟨inner, rfl, (Option.some.inj hfound).symm⟩
        · cases hfound
  · rintro ⟨inner, rfl, rfl⟩
    rw [unquote?, if_pos ⟨rfl, List.getLast?_concat⟩, List.dropLast_concat]

theorem enclosed_iff {text : List Char} :
    Enclosed text ↔ (quoteMarks.any fun mark => (unquote? mark (trim text)).isSome) = true := by
  rw [List.any_eq_true]
  refine exists_congr fun mark => and_congr_right fun _ => ?_
  rw [Option.isSome_iff_exists]
  constructor
  · rintro ⟨inner, htext⟩
    exact ⟨trim inner, unquote?_eq_some_iff.mpr ⟨inner, htext, rfl⟩⟩
  · rintro ⟨found, hfound⟩
    obtain ⟨inner, htext, -⟩ := unquote?_eq_some_iff.mp hfound
    exact ⟨inner, htext⟩

instance (text : List Char) : Decidable (Enclosed text) :=
  decidable_of_iff _ enclosed_iff.symm

/-- A text loses the quotes that enclose it, and otherwise only blanks. -/
theorem stripQuotes_cases (text : List Char) :
    (∃ mark ∈ quoteMarks, ∃ inner, trim text = mark :: (inner ++ [mark]) ∧
        stripQuotes text = trim inner) ∨
      ¬Enclosed text ∧ stripQuotes text = trim text := by
  cases hdouble : unquote? '"' (trim text) with
  | some found =>
      obtain ⟨inner, htext, rfl⟩ := unquote?_eq_some_iff.mp hdouble
      exact .inl ⟨'"', by decide, inner, htext, by simp [stripQuotes, hdouble]⟩
  | none =>
      cases hsingle : unquote? '\'' (trim text) with
      | some found =>
          obtain ⟨inner, htext, rfl⟩ := unquote?_eq_some_iff.mp hsingle
          exact .inl ⟨'\'', by decide, inner, htext, by simp [stripQuotes, hdouble, hsingle]⟩
      | none =>
          refine .inr ⟨?_, by simp [stripQuotes, hdouble, hsingle]⟩
          rintro ⟨mark, hmark, inner, htext⟩
          have hfound := unquote?_eq_some_iff.mpr ⟨inner, htext, rfl⟩
          simp only [quoteMarks, List.mem_cons, List.not_mem_nil, or_false] at hmark
          rcases hmark with rfl | rfl
          · rw [hdouble] at hfound
            cases hfound
          · rw [hsingle] at hfound
            cases hfound

theorem stripQuotes_of_enclosed {mark : Char} (hmark : mark ∈ quoteMarks) {text inner : List Char}
    (htext : trim text = mark :: (inner ++ [mark])) : stripQuotes text = trim inner := by
  rcases stripQuotes_cases text with ⟨mark', -, inner', htext', hstrip⟩ | ⟨hnot, -⟩
  · rw [htext] at htext'
    obtain ⟨rfl, hinner⟩ := List.cons.inj htext'
    rw [hstrip, List.append_cancel_right hinner]
  · exact absurd ⟨mark, hmark, inner, htext⟩ hnot

theorem stripQuotes_of_not_enclosed {text : List Char} (hnot : ¬Enclosed text) :
    stripQuotes text = trim text := by
  rcases stripQuotes_cases text with ⟨mark, hmark, inner, htext, -⟩ | ⟨-, hstrip⟩
  · exact absurd ⟨mark, hmark, inner, htext⟩ hnot
  · exact hstrip

theorem not_enclosed_cons {c : Char} (hblank : isBlank c = false) (hquote : c ∉ quoteMarks)
    (rest : List Char) : ¬Enclosed (c :: rest) := by
  rintro ⟨mark, hmark, inner, henclosed⟩
  obtain ⟨rest', htrim⟩ := exists_trim_cons hblank rest
  rw [htrim] at henclosed
  obtain ⟨rfl, -⟩ := List.cons.inj henclosed
  exact hquote hmark

@[simp] theorem stripQuotes_trim (text : List Char) :
    stripQuotes (trim text) = stripQuotes text := by
  simp [stripQuotes]

theorem infix_stripQuotes (text : List Char) : stripQuotes text <:+: text := by
  rcases stripQuotes_cases text with ⟨mark, -, inner, htext, hstrip⟩ | ⟨-, hstrip⟩
  · have hinner : inner <:+: trim text := ⟨[mark], [mark], by rw [htext]; rfl⟩
    rw [hstrip]
    exact (infix_trim inner).trans (hinner.trans (infix_trim text))
  · rw [hstrip]
    exact infix_trim text

theorem mem_stripQuotes {c : Char} (hblank : isBlank c = false) (hquote : c ∉ quoteMarks)
    {text : List Char} : c ∈ stripQuotes text ↔ c ∈ text := by
  constructor
  · intro hmem
    exact (infix_stripQuotes text).subset hmem
  · intro hmem
    rw [← mem_trim hblank] at hmem
    rcases stripQuotes_cases text with ⟨mark, hmark, inner, htext, hstrip⟩ | ⟨-, hstrip⟩
    · have hne : c ≠ mark := fun heq => hquote (heq ▸ hmark)
      rw [hstrip, mem_trim hblank]
      simpa [htext, hne] using hmem
    · rwa [hstrip]

/-! Separators outside of brackets -/

/-- The splitter takes the text over as it stands when it comes to it at this depth. -/
def Passes (separator : Char) (depth : Int) (text : List Char) : Prop :=
  ∀ isFirst done rest, splitTop separator depth isFirst done (text ++ rest) =
    splitTop separator depth isFirst (text.reverse ++ done) rest

/-- The characters that a hint is divided at. -/
def dividers : List Char := ['[', ']', '(', ')', ',', '|']

theorem divider_not_mem_quoteMarks {mark : Char} (hmark : mark ∈ quoteMarks) : mark ∉ dividers := by
  simp only [quoteMarks, List.mem_cons, List.not_mem_nil, or_false] at hmark
  rcases hmark with rfl | rfl <;> decide

namespace Passes

variable {separator : Char} {depth : Int} {text other : List Char}

theorem nil : Passes separator depth [] :=
  fun _ _ _ => rfl

theorem append (htext : Passes separator depth text) (hother : Passes separator depth other) :
    Passes separator depth (text ++ other) := by
  intro isFirst done rest
  rw [List.append_assoc, htext, hother, List.reverse_append, List.append_assoc]

theorem singleton {c : Char} (hopen : ¬(c = '[' ∨ c = '(')) (hclose : ¬(c = ']' ∨ c = ')'))
    (hseparator : ¬(c = separator ∧ depth = 0)) : Passes separator depth [c] := by
  intro isFirst done rest
  rw [List.singleton_append, splitTop, if_neg hopen, if_neg hclose, if_neg hseparator]
  rfl

theorem of_plain (hseparator : separator ∈ dividers) (hplain : ∀ c ∈ text, c ∉ dividers) :
    Passes separator depth text := by
  induction text with
  | nil => exact nil
  | cons c rest ih =>
      obtain ⟨hc, hrest⟩ := List.forall_mem_cons.mp hplain
      have hother : ∀ d ∈ dividers, c ≠ d := fun d hd heq => hc (heq ▸ hd)
      have hfirst : Passes separator depth [c] :=
        singleton (not_or.mpr ⟨hother _ (by decide), hother _ (by decide)⟩)
          (not_or.mpr ⟨hother _ (by decide), hother _ (by decide)⟩)
          fun hsame => hother separator hseparator hsame.1
      exact hfirst.append (ih hrest)

theorem quote (hseparator : separator ∈ dividers) {mark : Char} (hmark : mark ∈ quoteMarks) :
    Passes separator depth [mark] :=
  of_plain hseparator (by simpa using divider_not_mem_quoteMarks hmark)

theorem of_allBlank (hseparator : isBlank separator = false) (hblank : AllBlank text) :
    Passes separator depth text :=
  fun isFirst done rest => splitTop_append hseparator hblank depth isFirst done rest

/-- What passes one level deeper passes in brackets. -/
theorem brackets (htext : Passes separator (depth + 1) text) :
    Passes separator depth ('[' :: (text ++ [']'])) := by
  intro isFirst done rest
  have hopen : splitTop separator depth isFirst done ('[' :: (text ++ ']' :: rest)) =
      splitTop separator (depth + 1) isFirst ('[' :: done) (text ++ ']' :: rest) := by
    rw [splitTop, if_pos (.inl rfl)]
  have hclose : splitTop separator (depth + 1) isFirst (text.reverse ++ '[' :: done) (']' :: rest) =
      splitTop separator depth isFirst (']' :: (text.reverse ++ '[' :: done)) rest := by
    rw [splitTop, if_neg (by decide), if_pos (.inl rfl), Int.add_sub_cancel]
  simpa using hopen.trans ((htext isFirst _ _).trans hclose)

end Passes

theorem topParts_of_passes {separator : Char} {text : List Char}
    (htext : Passes separator 0 text) : topParts separator text = [trim text] := by
  have hend := htext true [] []
  rw [List.append_nil, List.append_nil] at hend
  rw [topParts, hend, splitTop, List.reverse_reverse]
  simp

/-- Pieces that pass are found again between the separators. -/
theorem splitTop_intercalate {separator : Char} (hopen : ¬(separator = '[' ∨ separator = '('))
    (hclose : ¬(separator = ']' ∨ separator = ')')) {pieces : List (List Char)}
    (hne : pieces ≠ []) (hpasses : ∀ piece ∈ pieces, Passes separator 0 piece)
    (hfull : ∀ piece ∈ pieces, trim piece ≠ []) (isFirst : Bool) :
    splitTop separator 0 isFirst [] (List.intercalate [separator] pieces) = pieces.map trim := by
  induction pieces generalizing isFirst with
  | nil => exact absurd rfl hne
  | cons piece rest ih =>
      obtain ⟨hpiece, hrest⟩ := List.forall_mem_cons.mp hpasses
      obtain ⟨hpieceFull, hrestFull⟩ := List.forall_mem_cons.mp hfull
      cases rest with
      | nil =>
          have hend := hpiece isFirst [] []
          rw [List.append_nil, List.append_nil] at hend
          rw [List.intercalate_singleton, hend, splitTop, List.reverse_reverse]
          simp [hpieceFull]
      | cons next others =>
          rw [List.intercalate_cons_cons, List.append_assoc, hpiece, List.singleton_append,
            splitTop, if_neg hopen, if_neg hclose, if_pos ⟨rfl, rfl⟩, List.append_nil,
            List.reverse_reverse, ih (List.cons_ne_nil next others) hrest hrestFull]
          rfl

theorem splitTop_append_done {separator : Char} {blanks : List Char} (hblank : AllBlank blanks)
    (depth : Int) (isFirst : Bool) (done text : List Char) :
    splitTop separator depth isFirst (done ++ blanks) text =
      splitTop separator depth isFirst done text := by
  have hpart : ∀ done : List Char, trim (done ++ blanks).reverse = trim done.reverse := by
    intro done
    have hreverse : AllBlank blanks.reverse := fun c hmem => hblank c (List.mem_reverse.mp hmem)
    have hnone : AllBlank [] := by decide
    have hsame := trim_append hreverse hnone done.reverse
    rwa [List.append_nil, ← List.reverse_append] at hsame
  -- what is done is kept in reverse, so that its last characters start the part
  induction text generalizing depth isFirst done with
  | nil => rw [splitTop, splitTop, hpart]
  | cons c rest ih =>
      rw [splitTop, splitTop, hpart, ← List.cons_append, ih, ih, ih]

theorem splitTop_append_blanks {separator : Char} (hseparator : isBlank separator = false)
    {blanks : List Char} (hblank : AllBlank blanks) (depth : Int) (isFirst : Bool)
    (done text : List Char) :
    splitTop separator depth isFirst done (text ++ blanks) =
      splitTop separator depth isFirst done text := by
  induction text generalizing depth isFirst done with
  | nil =>
      have hpart : trim (blanks.reverse ++ done).reverse = trim done.reverse := by
        have hnone : AllBlank [] := by decide
        have hsame := trim_append hnone hblank done.reverse
        rwa [List.nil_append, ← List.reverse_reverse blanks, ← List.reverse_append] at hsame
      have hpass : Passes separator depth blanks := .of_allBlank hseparator hblank
      have hend := hpass isFirst done []
      rw [List.append_nil] at hend
      rw [List.nil_append, hend, splitTop, splitTop, hpart]
  | cons c rest ih =>
      rw [List.cons_append, splitTop, splitTop, ih, ih, ih, ih]

theorem topParts_trim {separator : Char} (hseparator : isBlank separator = false)
    (text : List Char) : topParts separator (trim text) = topParts separator text := by
  obtain ⟨before, after, hbefore, hafter, htext⟩ := exists_trim text
  have hpass : Passes separator 0 before := .of_allBlank hseparator hbefore
  have hreverse : AllBlank before.reverse := fun c hmem => hbefore c (List.mem_reverse.mp hmem)
  calc topParts separator (trim text)
      = splitTop separator 0 true [] (trim text ++ after) :=
        (splitTop_append_blanks hseparator hafter 0 true [] (trim text)).symm
    _ = splitTop separator 0 true ([] ++ before.reverse) (trim text ++ after) :=
        (splitTop_append_done hreverse 0 true [] (trim text ++ after)).symm
    _ = splitTop separator 0 true [] (before ++ (trim text ++ after)) := by
        rw [hpass, List.append_nil, List.nil_append]
    _ = topParts separator text := by rw [← htext, topParts]

theorem splitTop_ne_nil {separator c : Char} (hc : isBlank c = false) (depth : Int)
    (isFirst : Bool) {done text : List Char} (hmem : c ∈ done ++ text) :
    splitTop separator depth isFirst done text ≠ [] := by
  induction text generalizing depth isFirst done with
  | nil =>
      have hpart : c ∈ trim done.reverse := by
        rw [mem_trim hc, List.mem_reverse]
        simpa using hmem
      have hfull : trim done.reverse ≠ [] := List.ne_nil_of_mem hpart
      rw [splitTop]
      simp [hfull]
  | cons d rest ih =>
      have hnext : c ∈ (d :: done) ++ rest := by
        simp only [List.mem_append, List.mem_cons] at hmem ⊢
        tauto
      rw [splitTop]
      split
      · exact ih _ _ hnext
      · split
        · exact ih _ _ hnext
        · split
          · exact List.cons_ne_nil _ _
          · exact ih _ _ hnext

theorem infix_of_mem_splitTop {separator : Char} {depth : Int} {isFirst : Bool}
    {done text part : List Char} (hpart : part ∈ splitTop separator depth isFirst done text) :
    part <:+: done.reverse ++ text := by
  induction text generalizing depth isFirst done with
  | nil =>
      rw [splitTop] at hpart
      split at hpart
      · cases hpart
      · rw [List.mem_singleton.mp hpart, List.append_nil]
        exact infix_trim done.reverse
  | cons c rest ih =>
      have hnext : (c :: done).reverse ++ rest = done.reverse ++ c :: rest := by simp
      rw [splitTop] at hpart
      split at hpart
      · exact hnext ▸ ih hpart
      · split at hpart
        · exact hnext ▸ ih hpart
        · split at hpart
          · rcases List.mem_cons.mp hpart with rfl | hlater
            · exact (infix_trim done.reverse).trans (List.prefix_append _ _).isInfix
            · refine (ih hlater).trans ?_
              rw [← hnext]
              exact (List.suffix_append _ _).isInfix
          · exact hnext ▸ ih hpart

theorem infix_of_mem_topParts {separator : Char} {text part : List Char}
    (hpart : part ∈ topParts separator text) : part <:+: text :=
  infix_of_mem_splitTop hpart

/-! Containers -/

theorem splitSubscript?_eq {container inner : List Char} (hcontainer : '[' ∉ container) :
    splitSubscript? (container ++ '[' :: (inner ++ [']'])) = some (container, inner) := by
  have hopen := beforeFirst_append_cons (inner ++ [']']) hcontainer
  have hdrop : (container ++ '[' :: (inner ++ [']'])).drop (container.length + 1) =
      inner ++ [']'] := by
    rw [← List.drop_drop, List.drop_left]
    rfl
  have hclose : afterLast ']' (inner ++ [']']) = [] :=
    afterLast_append_cons inner List.not_mem_nil
  rw [splitSubscript?, hopen]
  simp only [hdrop, hclose]
  simp

theorem infix_of_splitSubscript? {text container inner : List Char}
    (hfound : splitSubscript? text = some (container, inner)) : inner <:+: text := by
  rw [splitSubscript?] at hfound
  split at hfound
  · obtain ⟨-, rfl⟩ := Prod.mk.inj (Option.some.inj hfound)
    exact (List.take_prefix _ _).isInfix.trans (List.drop_suffix _ _).isInfix
  · cases hfound

end CodeGraph.TypeHint
