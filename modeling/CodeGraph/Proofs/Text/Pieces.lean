import CodeGraph.Text.Blank
import CodeGraph.Text.Split
import Mathlib.Data.List.TakeWhile
import Mathlib.Data.List.Infix

namespace CodeGraph.Text

/-! Pieces of a text: what stands behind a last separator and before a first one, and the text
between the blanks around it. -/

/-! Separators -/

theorem splitAt_ne_nil (separator : Char) (text : List Char) : splitAt separator text ≠ [] := by
  cases text with
  | nil => exact List.cons_ne_nil _ _
  | cons c rest =>
      rw [splitAt]
      split
      · exact List.cons_ne_nil _ _
      · split <;> exact List.cons_ne_nil _ _

theorem afterLast_append {separator : Char} {front name : List Char}
    (hname : separator ∉ name) (hfront : ∀ c, front.getLast? = some c → c = separator) :
    afterLast separator (front ++ name) = name := by
  have hall : ∀ c ∈ name.reverse, (decide (c ≠ separator)) = true := by
    intro c hmem
    simpa using fun heq : c = separator => hname (heq ▸ List.mem_reverse.mp hmem)
  rw [afterLast, List.reverse_append, List.takeWhile_append_of_pos hall]
  cases hreverse : front.reverse with
  | nil => simp
  | cons c rest =>
      have hlast : front.getLast? = some c := by simp [← List.head?_reverse, hreverse]
      simp [hfront c hlast]

theorem afterLast_append_cons {separator : Char} (front : List Char) {back : List Char}
    (hback : separator ∉ back) : afterLast separator (front ++ separator :: back) = back := by
  have hfront : ∀ c, (front ++ [separator]).getLast? = some c → c = separator := by simp
  have hlast := afterLast_append hback hfront
  rwa [List.append_assoc, List.singleton_append] at hlast

theorem afterLast_suffix (separator : Char) (text : List Char) :
    afterLast separator text <:+ text := by
  rw [← List.reverse_prefix, afterLast, List.reverse_reverse]
  exact List.takeWhile_prefix _

theorem beforeFirst_append_cons {separator : Char} {front : List Char} (back : List Char)
    (hfront : separator ∉ front) : beforeFirst separator (front ++ separator :: back) = front := by
  have hall : ∀ c ∈ front, (decide (c ≠ separator)) = true := by
    intro c hmem
    simpa using fun heq : c = separator => hfront (heq ▸ hmem)
  rw [beforeFirst, List.takeWhile_append_of_pos hall]
  simp

/-- Two texts that go on without separators behind their last one agree before it too. -/
theorem append_separator_inj {separator : Char} {front back front' back' : List Char}
    (hback : separator ∉ back) (hback' : separator ∉ back')
    (hsame : front ++ separator :: back = front' ++ separator :: back') :
    front = front' ∧ back = back' := by
  have hends : back = back' := by
    rw [← afterLast_append_cons front hback, hsame, afterLast_append_cons front' hback']
  subst hends
  exact ⟨List.append_cancel_right hsame, rfl⟩

/-! Blanks around a text -/

def AllBlank (text : List Char) : Prop :=
  ∀ c ∈ text, isBlank c = true

instance (text : List Char) : Decidable (AllBlank text) :=
  List.decidableBAll _ text

theorem trimStart_append_of_allBlank {before : List Char} (hbefore : AllBlank before)
    (text : List Char) : trimStart (before ++ text) = trimStart text :=
  List.dropWhile_append_of_pos hbefore

theorem trimEnd_append_of_allBlank {after : List Char} (hafter : AllBlank after)
    (text : List Char) : trimEnd (text ++ after) = trimEnd text := by
  have hreverse : ∀ c ∈ after.reverse, isBlank c = true := by
    intro c hmem
    exact hafter c (List.mem_reverse.mp hmem)
  rw [trimEnd, List.reverse_append, List.dropWhile_append_of_pos hreverse, trimEnd]

theorem trimStart_append_cons {before : List Char} (hbefore : AllBlank before) {c : Char}
    (hc : isBlank c = false) (rest : List Char) : trimStart (before ++ c :: rest) = c :: rest := by
  rw [trimStart_append_of_allBlank hbefore]
  exact List.dropWhile_cons_of_neg (by simp [hc])

theorem trimStart_of_allBlank {text : List Char} (hblank : AllBlank text) : trimStart text = [] :=
  List.dropWhile_eq_nil_iff.mpr hblank

theorem trim_append {before after : List Char} (hbefore : AllBlank before)
    (hafter : AllBlank after) (text : List Char) :
    trim (before ++ (text ++ after)) = trim text := by
  rw [trim, trimStart_append_of_allBlank hbefore, trim, trimStart, List.dropWhile_append]
  split
  · next hempty =>
      have hnil : trimStart text = [] := List.isEmpty_iff.mp hempty
      rw [hnil]
      exact congrArg trimEnd (trimStart_of_allBlank hafter)
  · exact trimEnd_append_of_allBlank hafter _

theorem exists_trimEnd (text : List Char) :
    ∃ after, AllBlank after ∧ text = trimEnd text ++ after := by
  refine ⟨(text.reverse.takeWhile isBlank).reverse, ?_, ?_⟩
  · intro c hmem
    exact List.mem_takeWhile_imp (List.mem_reverse.mp hmem)
  · rw [trimEnd, ← List.reverse_append, List.takeWhile_append_dropWhile, List.reverse_reverse]

theorem exists_trim (text : List Char) :
    ∃ before after, AllBlank before ∧ AllBlank after ∧ text = before ++ (trim text ++ after) := by
  obtain ⟨after, hafter, htext⟩ := exists_trimEnd (trimStart text)
  refine ⟨text.takeWhile isBlank, after, ?_, hafter, ?_⟩
  · intro c hmem
    exact List.mem_takeWhile_imp hmem
  · rw [trim, ← htext]
    exact List.takeWhile_append_dropWhile.symm

theorem infix_trim (text : List Char) : trim text <:+: text := by
  obtain ⟨before, after, -, -, htext⟩ := exists_trim text
  exact ⟨before, after, by rw [List.append_assoc, ← htext]⟩

@[simp] theorem trim_trim (text : List Char) : trim (trim text) = trim text := by
  obtain ⟨before, after, hbefore, hafter, htext⟩ := exists_trim text
  rw [← trim_append hbefore hafter (trim text), ← htext]

theorem mem_trim {c : Char} (hc : isBlank c = false) {text : List Char} :
    c ∈ trim text ↔ c ∈ text := by
  obtain ⟨before, after, hbefore, hafter, htext⟩ := exists_trim text
  have hnot : ∀ {blanks : List Char}, AllBlank blanks → c ∉ blanks := by
    intro blanks hblank hmem
    rw [hblank c hmem] at hc
    cases hc
  constructor
  · intro hmem
    exact (infix_trim text).subset hmem
  · intro hmem
    rw [htext, List.mem_append, List.mem_append] at hmem
    rcases hmem with hmem | hmem | hmem
    · exact absurd hmem (hnot hbefore)
    · exact hmem
    · exact absurd hmem (hnot hafter)

theorem exists_trim_cons {c : Char} (hc : isBlank c = false) (rest : List Char) :
    ∃ rest', trim (c :: rest) = c :: rest' := by
  have hnone : AllBlank [] := by decide
  have hstart : trimStart (c :: rest) = c :: rest := trimStart_append_cons hnone hc rest
  obtain ⟨after, hafter, htext⟩ := exists_trimEnd (c :: rest)
  rw [trim, hstart]
  cases hend : trimEnd (c :: rest) with
  | nil =>
      rw [hend, List.nil_append] at htext
      rw [hafter c (htext ▸ List.mem_cons_self)] at hc
      cases hc
  | cons d rest' =>
      rw [hend, List.cons_append] at htext
      exact ⟨rest', by rw [(List.cons.inj htext).1]⟩

theorem trim_eq_self {text : List Char} (hfirst : ∀ c ∈ text.head?, isBlank c = false)
    (hlast : ∀ c ∈ text.getLast?, isBlank c = false) : trim text = text := by
  have hkeep : ∀ {chars : List Char}, (∀ c ∈ chars.head?, isBlank c = false) →
      chars.dropWhile isBlank = chars := by
    intro chars hhead
    cases chars with
    | nil => rfl
    | cons c rest =>
        have hc : ¬isBlank c = true := by simpa using hhead c rfl
        exact List.dropWhile_cons_of_neg hc
  rw [trim, trimStart, hkeep hfirst, trimEnd, hkeep, List.reverse_reverse]
  simpa using hlast

end CodeGraph.Text
