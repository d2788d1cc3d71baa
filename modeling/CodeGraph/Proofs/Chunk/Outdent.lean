import CodeGraph.Chunk.Split
import CodeGraph.Proofs.Text.Pieces

namespace CodeGraph

open Syntax

/-! Taking the indentation from a text, character by character.  No line break is lost, so that a
part of what is left is found on the same line of the text. -/

/-- What is left of a text when up to `left` blanks go from its start, and up to `width` blanks from
the start of every later line. -/
def outdentFrom (width : Nat) : Nat → List Char → List Char
  | _, [] => []
  | left, c :: rest =>
      if c = '\n' then c :: outdentFrom width width rest
      else if left ≠ 0 ∧ (c = ' ' ∨ c = '\t') then outdentFrom width (left - 1) rest
      else c :: outdentFrom width 0 rest

/-- Outdenting the lines one by one comes to the same. -/
theorem intercalate_outdentLine (width left : Nat) (text : List Char) {first : List Char}
    {others : List (List Char)} (hlines : Text.splitAt '\n' text = first :: others) :
    ['\n'].intercalate (outdentLine left first :: others.map (outdentLine width)) =
      outdentFrom width left text := by
  induction text generalizing left first others with
  | nil =>
      cases hlines
      cases left <;> rfl
  | cons c rest ih =>
      cases hrest : Text.splitAt '\n' rest with
      | nil => exact absurd hrest (Text.splitAt_ne_nil '\n' rest)
      | cons part parts =>
          rw [Text.splitAt, hrest] at hlines
          rw [outdentFrom]
          split
          · next hbreak =>
              rw [if_pos hbreak] at hlines
              cases hlines
              have hempty : outdentLine left [] = [] := by cases left <;> rfl
              rw [hempty, List.map_cons, List.intercalate_cons_cons, ih width hrest, hbreak]
              rfl
          · next hother =>
              rw [if_neg hother] at hlines
              cases hlines
              cases left with
              | zero =>
                  have hkept := ih 0 hrest
                  rw [outdentLine] at hkept
                  rw [if_neg (by simp), outdentLine, List.intercalate_cons_cons_left, hkept]
              | succ left =>
                  rw [outdentLine]
                  by_cases hblank : c = ' ' ∨ c = '\t'
                  · rw [if_pos hblank, if_pos ⟨Nat.succ_ne_zero left, hblank⟩]
                    exact ih left hrest
                  · have hkept := ih 0 hrest
                    rw [outdentLine] at hkept
                    rw [if_neg hblank, if_neg (fun hboth => hblank hboth.2),
                      List.intercalate_cons_cons_left, hkept]

theorem outdentFrom_zero (text : List Char) : outdentFrom 0 0 text = text := by
  induction text with
  | nil => rfl
  | cons c rest ih =>
      rw [outdentFrom, ih]
      split
      · rfl
      · exact if_neg (by simp)

/-- A text of one line is kept as it is. -/
theorem outdentFrom_of_not_mem (width : Nat) {text : List Char} (hline : '\n' ∉ text) :
    outdentFrom width 0 text = text := by
  induction text with
  | nil => rfl
  | cons c rest ih =>
      rw [List.mem_cons, not_or] at hline
      rw [outdentFrom, if_neg (Ne.symm hline.1), if_neg (by simp), ih hline.2]

theorem outdented_eq (tree : SyntaxTree) :
    (outdented tree).toList = outdentFrom tree.start.column 0 tree.text.toList := by
  unfold outdented
  split
  · next hcolumn => rw [hcolumn, outdentFrom_zero]
  · split
    · next hlines => exact absurd hlines (Text.splitAt_ne_nil '\n' tree.text.toList)
    · next first others hlines =>
        rw [String.toList_ofList, ← intercalate_outdentLine _ 0 _ hlines, outdentLine]

theorem count_outdentFrom (width left : Nat) (text : List Char) :
    (outdentFrom width left text).count '\n' = text.count '\n' := by
  induction text generalizing left with
  | nil => rfl
  | cons c rest ih =>
      rw [outdentFrom]
      split
      · rw [List.count_cons, List.count_cons, ih]
      · next hother =>
          rw [List.count_cons_of_ne hother]
          split
          · exact ih _
          · rw [List.count_cons_of_ne hother, ih]

/-- A character is taken or kept whatever comes behind it. -/
theorem outdentFrom_cons (width left : Nat) (c : Char) :
    (∃ next, ∀ rest, outdentFrom width left (c :: rest) = outdentFrom width next rest) ∨
      ∃ next, ∀ rest, outdentFrom width left (c :: rest) = c :: outdentFrom width next rest := by
  by_cases hbreak : c = '\n'
  · exact .inr ⟨width, fun rest => if_pos hbreak⟩
  · by_cases htaken : left ≠ 0 ∧ (c = ' ' ∨ c = '\t')
    · exact .inl ⟨left - 1, fun rest => (if_neg hbreak).trans (if_pos htaken)⟩
    · exact .inr ⟨0, fun rest => (if_neg hbreak).trans (if_neg htaken)⟩

/-- What is left can be cut where the text is cut. -/
theorem outdentFrom_eq_append {width left : Nat} {text first second : List Char}
    (hparts : outdentFrom width left text = first ++ second) :
    ∃ before after next, text = before ++ after ∧ outdentFrom width left before = first ∧
      outdentFrom width next after = second := by
  induction text generalizing left first with
  | nil =>
      obtain ⟨rfl, rfl⟩ := List.append_eq_nil_iff.mp hparts.symm
      exact ⟨[], [], left, rfl, rfl, rfl⟩
  | cons c rest ih =>
      cases first with
      | nil => exact ⟨[], c :: rest, left, rfl, rfl, hparts⟩
      | cons kept more =>
          rcases outdentFrom_cons width left c with ⟨next, htaken⟩ | ⟨next, hkept⟩
          · rw [htaken] at hparts
            obtain ⟨before, after, later, rfl, hbefore, hafter⟩ := ih hparts
            exact ⟨c :: before, after, later, rfl, (htaken before).trans hbefore, hafter⟩
          · rw [hkept, List.cons_append, List.cons.injEq] at hparts
            obtain ⟨before, after, later, rfl, hbefore, hafter⟩ := ih hparts.2
            exact ⟨c :: before, after, later, rfl,
              (hkept before).trans (by rw [hbefore, hparts.1]), hafter⟩

end CodeGraph
