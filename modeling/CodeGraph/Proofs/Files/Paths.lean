import CodeGraph.Files.Basic
import CodeGraph.Proofs.Text.Pieces

namespace CodeGraph

/-! Paths of the same components lead to the same file, if both lead to one. -/

namespace Text

theorem separator_not_mem_of_mem_splitAt {separator : Char} {text part : List Char}
    (hmem : part ∈ splitAt separator text) : separator ∉ part := by
  induction text generalizing part with
  | nil =>
      rw [splitAt, List.mem_singleton] at hmem
      subst hmem
      exact List.not_mem_nil
  | cons c rest ih =>
      rw [splitAt] at hmem
      split at hmem
      · rcases List.mem_cons.mp hmem with rfl | hrest
        · exact List.not_mem_nil
        · exact ih hrest
      · next hne =>
          split at hmem
          · rw [List.mem_singleton] at hmem
            subst hmem
            simpa using fun heq => hne heq.symm
          · next first others hsplit =>
              rw [hsplit] at ih
              rcases List.mem_cons.mp hmem with rfl | hothers
              · rw [List.mem_cons, not_or]
                exact ⟨fun heq => hne heq.symm, ih List.mem_cons_self⟩
              · exact ih (List.mem_cons_of_mem first hothers)

namespace Path

/-- A stretch of a path that names something. -/
def isName (part : List Char) : Bool :=
  !(part == [] || part == ['.'])

theorem isName_nil : isName [] = false := rfl

theorem components_of_rooted {path : String} {rest : List Char}
    (hpath : path.toList = '/' :: rest) :
    components path = ['/'] :: (splitAt '/' rest).filter isName := by
  have hrooted : isRooted path = true := by simp [isRooted, hpath]
  rw [components, segments, if_pos hrooted, hpath]
  simp only [List.filter_map, List.map_map]
  exact congrArg (['/'] :: ·) (List.map_id _)

theorem components_of_not_rooted {path : String} {first : List Char} {rest : List (List Char)}
    (hrooted : isRooted path = false) (hsplit : splitAt '/' path.toList = first :: rest) :
    components path = (if first = [] then [] else [first]) ++ rest.filter isName := by
  have hlater : ∀ tail, path.toList ≠ '/' :: tail := by
    intro tail hpath
    simp [isRooted, hpath] at hrooted
  have hrest := List.map_id (rest.filter isName)
  rw [components, segments, hrooted, if_neg Bool.false_ne_true, List.nil_append]
  split
  · next tail hpath => exact False.elim (hlater tail hpath)
  · rw [hsplit]
    simp only [List.filter_cons, List.filter_map]
    cases first with
    | nil => exact List.map_map.trans hrest
    | cons c others => exact congrArg ((c :: others) :: ·) (List.map_map.trans hrest)

theorem exists_rest_of_isRooted {path : String} (hrooted : isRooted path = true) :
    ∃ rest, path.toList = '/' :: rest := by
  cases hpath : path.toList with
  | nil => simp [isRooted, hpath] at hrooted
  | cons c rest => exact ⟨rest, by simpa [isRooted, hpath] using hrooted⟩

theorem isRooted_iff_components (path : String) :
    isRooted path = true ↔ (components path).head? = some ['/'] := by
  constructor
  · intro hrooted
    obtain ⟨rest, hpath⟩ := exists_rest_of_isRooted hrooted
    rw [components_of_rooted hpath, List.head?_cons]
  · intro hhead
    cases hrooted : isRooted path with
    | true => rfl
    | false =>
        -- no stretch between slashes has a slash in it
        obtain ⟨first, rest, hsplit⟩ := List.exists_cons_of_ne_nil (splitAt_ne_nil '/' path.toList)
        rw [components_of_not_rooted hrooted hsplit] at hhead
        have hmem : ['/'] ∈ splitAt '/' path.toList := by
          rw [hsplit, List.mem_cons]
          rcases List.mem_append.mp (List.mem_of_mem_head? hhead) with hfirst | hrest
          · split at hfirst
            · cases hfirst
            · exact .inl (List.mem_singleton.mp hfirst)
          · exact .inr (List.mem_filter.mp hrest).1
        exact False.elim (separator_not_mem_of_mem_splitAt hmem List.mem_cons_self)

theorem filter_isName_splitAt (path : String) :
    (splitAt '/' path.toList).filter isName =
      (if isRooted path then (components path).tail else components path).filter isName := by
  cases hrooted : isRooted path with
  | true =>
      obtain ⟨rest, hpath⟩ := exists_rest_of_isRooted hrooted
      rw [components_of_rooted hpath, hpath, if_pos rfl, List.tail_cons, List.filter_filter]
      simp [splitAt, isName_nil]
  | false =>
      obtain ⟨first, rest, hsplit⟩ := List.exists_cons_of_ne_nil (splitAt_ne_nil '/' path.toList)
      rw [components_of_not_rooted hrooted hsplit, hsplit, if_neg Bool.false_ne_true]
      cases first with
      | nil => simp [isName_nil]
      | cons c others => simp [List.filter_cons]

end Path

end Text

namespace Files

/-- One name further on. -/
def follow (place : List String) (part : String) : List String :=
  if part = ".." then place.dropLast else place ++ [part]

theorem eq_follow_of_step {files : Files} {place next : List String} {part : List Char}
    (hstep : files.step place (String.ofList part) = .ok next) :
    next = if Text.Path.isName part then follow place (String.ofList part) else place := by
  have hname : Text.Path.isName part = true ↔
      ¬(String.ofList part = "" ∨ String.ofList part = ".") := by
    have hdot : String.ofList part = "." ↔ part = ['.'] := @String.ofList_inj part ['.']
    simp [Text.Path.isName, hdot]
  unfold step at hstep
  split at hstep
  · cases hstep
  · cases hstep
  · cases hstep
  · split at hstep
    · next hnone =>
        rw [if_neg (fun his => hname.mp his hnone)]
        exact (Except.ok.inj hstep).symm
    · next hsome =>
        rw [if_pos (hname.mpr hsome), follow]
        split at hstep
        · next hup =>
            rw [if_pos hup]
            exact (Except.ok.inj hstep).symm
        · next hdown =>
            rw [if_neg hdown]
            split at hstep
            · exact (Except.ok.inj hstep).symm
            · cases hstep

theorem eq_foldl_follow {files : Files} {place last : List String} {parts : List (List Char)}
    (hfold : (parts.map String.ofList).foldlM files.step place = .ok last) :
    last = ((parts.filter Text.Path.isName).map String.ofList).foldl follow place := by
  induction parts generalizing place with
  | nil =>
      cases hfold
      rfl
  | cons part rest ih =>
      rw [List.map_cons, List.foldlM_cons] at hfold
      cases hstep : files.step place (String.ofList part) with
      | error reason =>
          rw [hstep] at hfold
          cases hfold
      | ok next =>
          rw [hstep] at hfold
          rw [ih hfold, eq_follow_of_step hstep, List.filter_cons]
          split <;> rfl

theorem eq_foldl_follow_of_locate {files : Files} {path : String} {place : List String}
    (hlocate : files.locate path = .ok place) :
    place = (((if Text.Path.isRooted path then (Text.Path.components path).tail
      else Text.Path.components path).filter Text.Path.isName).map String.ofList).foldl follow
        (files.start path) := by
  unfold locate at hlocate
  split at hlocate
  · cases hlocate
  · rw [eq_foldl_follow hlocate, Text.Path.filter_isName_splitAt]

theorem locate_eq_of_components {files : Files} {first second : String} {place other : List String}
    (hcomponents : Text.Path.components first = Text.Path.components second)
    (hfirst : files.locate first = .ok place) (hsecond : files.locate second = .ok other) :
    place = other := by
  have hrooted : Text.Path.isRooted first = Text.Path.isRooted second := by
    rw [Bool.eq_iff_iff, Text.Path.isRooted_iff_components, Text.Path.isRooted_iff_components,
      hcomponents]
  rw [eq_foldl_follow_of_locate hfirst, eq_foldl_follow_of_locate hsecond, hcomponents, hrooted,
    start, start, hrooted]

theorem readText?_eq_of_components {files : Files} {first second : String}
    (hcomponents : Text.Path.components first = Text.Path.components second)
    (hfirst : (files.readText? first).isSome = true)
    (hsecond : (files.readText? second).isSome = true) :
    files.readText? first = files.readText? second := by
  have hlocated : ∀ path, (files.readText? path).isSome = true →
      ∃ place, files.locate path = .ok place := by
    intro path hsome
    cases hlocate : files.locate path with
    | ok place => exact ⟨place, rfl⟩
    | error reason => simp [readText?, readText, lookup, hlocate, bind, Except.bind] at hsome
  obtain ⟨place, hplace⟩ := hlocated first hfirst
  obtain ⟨other, hother⟩ := hlocated second hsecond
  have hsame : files.locate first = files.locate second := by
    rw [hplace, hother, locate_eq_of_components hcomponents hplace hother]
  rw [readText?, readText?, readText, readText, lookup, lookup, hsame]

end Files

end CodeGraph
