import CodeGraph.Proofs.TypeHint.Grammar

namespace CodeGraph.TypeHint

open Text

/-! A written hint is read as its structure has it: the splits on its text find the members and
arguments again, at any depth of brackets.  The one exception are alternatives of which the first
and the last stand in the same quotes. -/

/-! Rows -/

theorem exists_cons_cons {entries : List Entry} (htwo : 2 ≤ entries.length) :
    ∃ first next others, entries = first :: next :: others := by
  obtain ⟨first, rest, rfl⟩ := List.exists_cons_of_length_pos (Nat.lt_of_lt_of_le Nat.two_pos htwo)
  obtain ⟨next, others, rfl⟩ := List.exists_cons_of_length_pos (Nat.le_of_succ_le_succ htwo)
  exact ⟨first, next, others, rfl⟩

theorem separator_mem_row (separator : Char) {entries : List Entry} (htwo : 2 ≤ entries.length) :
    separator ∈ row separator entries := by
  obtain ⟨first, next, others, rfl⟩ := exists_cons_cons htwo
  rw [row_cons_cons]
  exact List.mem_append_right _ List.mem_cons_self

theorem Entry.mem_row {entry : Entry} {entries : List Entry} (hentry : entry ∈ entries)
    (separator : Char) {c : Char} (hc : c ∈ entry.text) : c ∈ row separator entries := by
  have hpadded : c ∈ entry.padded := by
    rw [Entry.padded, List.mem_append, List.mem_append]
    exact .inr (.inl hc)
  induction entries with
  | nil => cases hentry
  | cons first rest ih =>
      cases rest with
      | nil =>
          rw [List.mem_singleton.mp hentry] at hpadded
          simpa [row] using hpadded
      | cons next others =>
          rw [row_cons_cons, List.mem_append, List.mem_cons]
          rcases List.mem_cons.mp hentry with rfl | hrest
          · exact .inl hpadded
          · exact .inr (.inr (ih hrest))

theorem Passes.row {separator divider : Char} {depth : Int} {entries : List Entry}
    (hseparator : isBlank separator = false) (hdivider : Passes separator depth [divider])
    (htexts : ∀ entry ∈ entries, Passes separator depth entry.text) :
    Passes separator depth (row divider entries) := by
  induction entries with
  | nil => exact nil
  | cons entry rest ih =>
      obtain ⟨htext, hrest⟩ := List.forall_mem_cons.mp htexts
      have hentry := entry.passes_padded hseparator htext
      cases rest with
      | nil => simpa [TypeHint.row] using hentry
      | cons next others =>
          rw [row_cons_cons]
          exact hentry.append (hdivider.append (ih hrest))

/-! What a text of a hint has in it -/

namespace Hint.Written

variable {marks : List Char} {hint : Hint} {text : List Char}

/-- The text is one piece for the splitter, alternatives outside of brackets apart. -/
theorem passes (hmarks : marks ⊆ quoteMarks) (hwritten : hint.Written marks text)
    {separator : Char} (hseparator : separator = ',' ∨ separator = '|') {depth : Int}
    (hdepth : 0 ≤ depth) (hinside : hint.isUnion = true → separator = '|' → 0 < depth) :
    Passes separator depth text := by
  have hdivider : separator ∈ dividers := by rcases hseparator with rfl | rfl <;> decide
  have hblank : isBlank separator = false := by rcases hseparator with rfl | rfl <;> decide
  induction hwritten generalizing depth with
  | dotted name => exact name.passes_text hdivider depth
  | @quoted name mark hmark =>
      have hquote : Passes separator depth [mark] := .quote hdivider (hmarks hmark)
      exact hquote.append ((name.passes_text hdivider depth).append hquote)
  | @subscript container entries hne hentries ih =>
      -- one level deeper no separator splits, so that alternatives pass there too
      have hcomma : Passes separator (depth + 1) [','] :=
        .singleton (by decide) (by decide) (fun hsame => by omega)
      have htexts : ∀ entry ∈ entries, Passes separator (depth + 1) entry.text :=
        fun entry hentry => ih entry hentry (by omega) (fun _ _ => by omega)
      exact (container.passes_text hdivider depth).append
        (Passes.row hblank hcomma htexts).brackets
  | @union entries htwo hplain hentries ih =>
      have hbar : Passes separator depth ['|'] := by
        refine .singleton (by decide) (by decide) ?_
        rintro ⟨hsame, hzero⟩
        have hdeep := hinside rfl hsame.symm
        omega
      have htexts : ∀ entry ∈ entries, Passes separator depth entry.text := by
        intro entry hentry
        refine ih entry hentry hdepth ?_
        intro hunion
        rw [hplain entry hentry] at hunion
        cases hunion
      exact Passes.row hblank hbar htexts

theorem exists_mem (hwritten : hint.Written marks text) :
    ∃ c ∈ text, isBlank c = false ∧ c ∉ quoteMarks := by
  have hname : ∀ name : DottedName, ∃ c ∈ name.text, isBlank c = false ∧ c ∉ quoteMarks := by
    intro name
    obtain ⟨c, rest, htext, hplain⟩ := name.exists_text_eq_cons
    exact ⟨c, htext ▸ List.mem_cons_self, hplain⟩
  cases hwritten with
  | dotted name => exact hname name
  | quoted name hmark =>
      obtain ⟨c, hc, hplain⟩ := hname name
      exact ⟨c, List.mem_cons_of_mem _ (List.mem_append_left _ hc), hplain⟩
  | subscript container entries hne hentries =>
      exact ⟨'[', List.mem_append_right _ List.mem_cons_self, by decide⟩
  | union entries htwo hplain hentries => exact ⟨'|', separator_mem_row '|' htwo, by decide⟩

theorem trim_ne_nil (hwritten : hint.Written marks text) : trim text ≠ [] := by
  obtain ⟨c, hc, hblank, -⟩ := hwritten.exists_mem
  exact List.ne_nil_of_mem ((mem_trim hblank).mpr hc)

end Hint.Written

theorem topParts_row {marks : List Char} (hmarks : marks ⊆ quoteMarks) {separator : Char}
    (hseparator : separator = ',' ∨ separator = '|') {entries : List Entry} (hne : entries ≠ [])
    (hentries : ∀ entry ∈ entries, entry.hint.Written marks entry.text)
    (hplain : ∀ entry ∈ entries, entry.hint.isUnion = true → separator ≠ '|') :
    topParts separator (row separator entries) = entries.map fun entry => trim entry.text := by
  have hblank : isBlank separator = false := by rcases hseparator with rfl | rfl <;> decide
  have hopen : ¬(separator = '[' ∨ separator = '(') := by
    rcases hseparator with rfl | rfl <;> decide
  have hclose : ¬(separator = ']' ∨ separator = ')') := by
    rcases hseparator with rfl | rfl <;> decide
  have hpasses : ∀ piece ∈ entries.map Entry.padded, Passes separator 0 piece := by
    intro piece hpiece
    obtain ⟨entry, hentry, rfl⟩ := List.mem_map.mp hpiece
    refine entry.passes_padded hblank ?_
    refine (hentries entry hentry).passes hmarks hseparator Int.le_rfl ?_
    intro hunion hbar
    exact absurd hbar (hplain entry hentry hunion)
  have hfull : ∀ piece ∈ entries.map Entry.padded, trim piece ≠ [] := by
    intro piece hpiece
    obtain ⟨entry, hentry, rfl⟩ := List.mem_map.mp hpiece
    rw [entry.trim_padded]
    exact (hentries entry hentry).trim_ne_nil
  have hsplit := splitTop_intercalate hopen hclose (by simpa using hne) hpasses hfull true
  rw [topParts, row, hsplit, List.map_map]
  exact List.map_congr_left fun entry _ => entry.trim_padded

/-! Names in a row -/

theorem stripQuotes_text (name : DottedName) : stripQuotes name.text = name.text := by
  have hstrip := name.stripQuotes_text_append []
  rwa [List.append_nil, name.trim_text] at hstrip

theorem stripQuotes_quoted (name : DottedName) {mark : Char} (hmark : mark ∈ quoteMarks) :
    stripQuotes (mark :: (name.text ++ [mark])) = name.text := by
  have hblank := isBlank_of_mem_quoteMarks hmark
  have htrim : trim (mark :: (name.text ++ [mark])) = mark :: (name.text ++ [mark]) := by
    refine trim_eq_self (by simpa using hblank) ?_
    rw [← List.cons_append, List.getLast?_concat]
    simpa using hblank
  rw [stripQuotes_of_enclosed hmark htrim, name.trim_text]

theorem unspecific_eq : unspecific = ["None".toList, "Any".toList, "object".toList] := rfl

theorem mem_peelable_iff {name : List Char} :
    name ∈ peelable ↔ String.ofList name ∈ Hint.containerNames := by
  have hnames : peelable = Hint.containerNames.map String.toList := rfl
  rw [hnames, List.mem_map]
  constructor
  · rintro ⟨container, hmem, rfl⟩
    rwa [String.ofList_toList]
  · intro hmem
    exact ⟨_, hmem, String.toList_ofList⟩

theorem simpleName?_of_stripQuotes {text : List Char} {name : DottedName}
    (hstrip : stripQuotes text = name.text) : simpleName? text = name.class? := by
  have hempty : name.text.isEmpty = false := by simpa using name.text_ne_nil
  have hopen : name.text.contains '[' = false := by
    simpa using name.divider_not_mem_text (by decide)
  have hbar : name.text.contains '|' = false := by
    simpa using name.divider_not_mem_text (by decide)
  rw [simpleName?, hstrip, DottedName.class?, ← unspecific_eq]
  simp only [hempty, hopen, hbar, name.afterLast_text, name.last.isName_text, Bool.or_self,
    Bool.false_eq_true, if_false, Bool.true_and]
  by_cases hmem : name.last.text ∈ unspecific
  · rw [if_pos hmem, if_neg (by simpa using hmem)]
  · rw [if_neg hmem, if_pos (by simpa using hmem)]

theorem divided_stripQuotes {text : List Char} (hdivided : '[' ∈ text ∨ '|' ∈ text) :
    '[' ∈ stripQuotes text ∨ '|' ∈ stripQuotes text :=
  hdivided.imp (mem_stripQuotes (by decide) (by decide)).mpr
    (mem_stripQuotes (by decide) (by decide)).mpr

theorem simpleName?_eq_none {text : List Char} (hdivided : '[' ∈ text ∨ '|' ∈ text) :
    simpleName? text = none := by
  rw [simpleName?]
  exact if_pos (by rcases divided_stripQuotes hdivided with hmem | hmem <;> simp [hmem])

theorem stripQuotes_ne_none {text : List Char} (hdivided : '[' ∈ text ∨ '|' ∈ text) :
    stripQuotes text ≠ "None".toList := by
  have hkept := divided_stripQuotes hdivided
  intro hsame
  rw [hsame] at hkept
  revert hkept
  decide

namespace Hint.Written

variable {marks : List Char} {hint : Hint} {text : List Char}

/-- A text of a hint is that of a name, up to quotes, or has one of the two dividers in it. -/
theorem name_or_divided (hmarks : marks ⊆ quoteMarks) (hwritten : hint.Written marks text) :
    (∃ name, hint = .dotted name ∧ stripQuotes text = name.text) ∨
      hint.isNone = false ∧ hint.nameClass? = none ∧ ('[' ∈ text ∨ '|' ∈ text) := by
  cases hwritten with
  | dotted name => exact .inl ⟨name, rfl, stripQuotes_text name⟩
  | quoted name hmark => exact .inl ⟨name, rfl, stripQuotes_quoted name (hmarks hmark)⟩
  | subscript container entries hne hentries =>
      exact .inr ⟨rfl, rfl, .inl (List.mem_append_right _ List.mem_cons_self)⟩
  | union entries htwo hplain hentries => exact .inr ⟨rfl, rfl, .inr (separator_mem_row '|' htwo)⟩

theorem simpleName?_eq (hmarks : marks ⊆ quoteMarks) (hwritten : hint.Written marks text) :
    simpleName? text = hint.nameClass? := by
  rcases hwritten.name_or_divided hmarks with ⟨name, rfl, hstrip⟩ | ⟨-, hnone, hdivided⟩
  · exact simpleName?_of_stripQuotes hstrip
  · rw [simpleName?_eq_none hdivided, hnone]

theorem stripQuotes_eq_none_iff (hmarks : marks ⊆ quoteMarks) (hwritten : hint.Written marks text) :
    stripQuotes text = "None".toList ↔ hint.isNone = true := by
  rcases hwritten.name_or_divided hmarks with ⟨name, rfl, hstrip⟩ | ⟨hnone, -, hdivided⟩
  · rw [hstrip]
    exact name.text_eq_none_iff
  · rw [hnone]
    exact iff_of_false (stripQuotes_ne_none hdivided) Bool.false_ne_true

end Hint.Written

theorem simpleName?_trim (text : List Char) : simpleName? (trim text) = simpleName? text := by
  rw [simpleName?, stripQuotes_trim, simpleName?]

theorem firstPresent?_bind {marks : List Char} (hmarks : marks ⊆ quoteMarks) {entries : List Entry}
    (hentries : ∀ entry ∈ entries, entry.hint.Written marks entry.text) :
    (firstPresent? (entries.map fun entry => trim entry.text)).bind simpleName? =
      Hint.firstClass? (entries.map Entry.hint) := by
  induction entries with
  | nil => rfl
  | cons entry rest ih =>
      obtain ⟨hentry, hrest⟩ := List.forall_mem_cons.mp hentries
      have hpresent : (stripQuotes (trim entry.text) != "None".toList) = !entry.hint.isNone := by
        rw [stripQuotes_trim, Bool.eq_iff_iff, bne_iff_ne, Bool.not_eq_true', ne_eq,
          hentry.stripQuotes_eq_none_iff hmarks, Bool.not_eq_true]
      rw [List.map_cons, List.map_cons, firstPresent?, List.find?_cons, hpresent,
        Hint.firstClass?, List.find?_cons]
      cases hnone : entry.hint.isNone with
      | true => exact ih hrest
      | false =>
          rw [Bool.not_false]
          exact (simpleName?_trim entry.text).trans (hentry.simpleName?_eq hmarks)

theorem head?_bind {marks : List Char} (hmarks : marks ⊆ quoteMarks) {entries : List Entry}
    (hentries : ∀ entry ∈ entries, entry.hint.Written marks entry.text) :
    (entries.map fun entry => trim entry.text).head?.bind simpleName? =
      (entries.map Entry.hint).head?.bind Hint.nameClass? := by
  cases entries with
  | nil => rfl
  | cons entry rest =>
      have hentry := hentries entry List.mem_cons_self
      exact (simpleName?_trim entry.text).trans (hentry.simpleName?_eq hmarks)

/-! The whole text -/

theorem classChars?_of_name {text : List Char} {name : DottedName}
    (hstrip : stripQuotes text = name.text) : classChars? text = name.class? := by
  have hpasses : Passes '|' 0 name.text := name.passes_text (by decide) 0
  have hopen : name.text.contains '[' = false := by
    simpa using name.divider_not_mem_text (by decide)
  rw [classChars?, hstrip]
  simp only [topParts_of_passes hpasses, List.length_singleton, gt_iff_lt, Nat.lt_irrefl, if_false,
    hopen, Bool.not_false, if_true]
  exact simpleName?_of_stripQuotes (stripQuotes_text name)

theorem classChars?_of_members {text : List Char}
    (hmany : 1 < (topParts '|' (stripQuotes text)).length) :
    classChars? text = (firstPresent? (topParts '|' (stripQuotes text))).bind simpleName? := by
  rw [classChars?]
  exact if_pos hmany

theorem classChars?_of_subscript {text inner : List Char} {container : DottedName}
    (hstrip : stripQuotes text = container.text ++ '[' :: (inner ++ [']']))
    (hpasses : Passes '|' 0 (container.text ++ '[' :: (inner ++ [']']))) :
    classChars? text =
      if container.last.text = "Union".toList then
        (firstPresent? (topParts ',' inner)).bind simpleName?
      else if String.ofList container.last.text ∈ Hint.containerNames then
        (topParts ',' inner).head?.bind simpleName?
      else none := by
  have hopen : '[' ∉ container.text := container.divider_not_mem_text (by decide)
  have hcontains : (container.text ++ '[' :: (inner ++ [']'])).contains '[' = true := by simp
  rw [classChars?, hstrip]
  simp only [topParts_of_passes hpasses, List.length_singleton, gt_iff_lt, Nat.lt_irrefl, if_false,
    hcontains, Bool.not_true, Bool.false_eq_true, splitSubscript?_eq hopen, container.trim_text,
    container.afterLast_text, beq_iff_eq, List.contains_iff_mem, mem_peelable_iff]

theorem classChars?_subscript {marks : List Char} (hmarks : marks ⊆ quoteMarks)
    (container : DottedName) {entries : List Entry} (hne : entries ≠ [])
    (hentries : ∀ entry ∈ entries, entry.hint.Written marks entry.text) :
    classChars? (container.text ++ '[' :: (row ',' entries ++ [']'])) =
      (Hint.subscript container (entries.map Entry.hint)).class? := by
  have hend : ∀ c ∈ ('[' :: (row ',' entries ++ [']'])).getLast?, isBlank c = false := by
    intro c hc
    rw [← List.cons_append, List.getLast?_concat] at hc
    rw [← Option.some.inj hc]
    decide
  have hstrip : stripQuotes (container.text ++ '[' :: (row ',' entries ++ [']'])) =
      container.text ++ '[' :: (row ',' entries ++ [']']) := by
    rw [container.stripQuotes_text_append, container.trim_text_append _ hend]
  have hpasses : Passes '|' 0 (container.text ++ '[' :: (row ',' entries ++ [']'])) :=
    (Hint.Written.subscript container entries hne hentries).passes hmarks (.inr rfl) Int.le_rfl
      fun hunion => by cases hunion
  have harguments : topParts ',' (row ',' entries) = entries.map fun entry => trim entry.text :=
    topParts_row hmarks (.inl rfl) hne hentries fun _ _ _ => by decide
  rw [classChars?_of_subscript hstrip hpasses, harguments, firstPresent?_bind hmarks hentries,
    head?_bind hmarks hentries, Hint.class?]

theorem classChars?_union {marks : List Char} (hmarks : marks ⊆ quoteMarks) {entries : List Entry}
    (htwo : 2 ≤ entries.length) (hplain : ∀ entry ∈ entries, entry.hint.isUnion = false)
    (hentries : ∀ entry ∈ entries, entry.hint.Written marks entry.text)
    (hopen : ¬Enclosed (row '|' entries)) :
    classChars? (row '|' entries) = (Hint.union (entries.map Entry.hint)).class? := by
  have hne : entries ≠ [] := List.ne_nil_of_length_pos (by omega)
  have hmembers : topParts '|' (row '|' entries) = entries.map fun entry => trim entry.text := by
    refine topParts_row hmarks (.inr rfl) hne hentries ?_
    intro entry hentry hunion
    rw [hplain entry hentry] at hunion
    cases hunion
  have hparts : topParts '|' (stripQuotes (row '|' entries)) =
      entries.map fun entry => trim entry.text := by
    rw [stripQuotes_of_not_enclosed hopen, topParts_trim (by decide), hmembers]
  rw [classChars?_of_members (by rw [hparts, List.length_map]; omega), hparts,
    firstPresent?_bind hmarks hentries, Hint.class?]

/-! Alternatives between quotes -/

/-- How a member starts: with a quote only if it is a name in quotes. -/
theorem Hint.Written.exists_cons {marks : List Char} (hmarks : marks ⊆ quoteMarks) {hint : Hint}
    {text : List Char} (hwritten : hint.Written marks text) (hplain : hint.isUnion = false) :
    ∃ c rest, text = c :: rest ∧ isBlank c = false ∧
      (c ∈ quoteMarks → c ∈ marks ∧ ∃ name : DottedName, rest = name.text ++ [c]) := by
  cases hwritten with
  | dotted name =>
      obtain ⟨c, rest, htext, hblank, hquote⟩ := name.exists_text_eq_cons
      exact ⟨c, rest, htext, hblank, fun hmem => absurd hmem hquote⟩
  | @quoted name mark hmark =>
      exact ⟨mark, _, rfl, isBlank_of_mem_quoteMarks (hmarks hmark), fun _ => ⟨hmark, name, rfl⟩⟩
  | subscript container entries hne hentries =>
      obtain ⟨c, rest, htext, hblank, hquote⟩ := container.exists_text_eq_cons
      rw [htext]
      exact ⟨c, _, rfl, hblank, fun hmem => absurd hmem hquote⟩
  | union entries htwo hmembers hentries => cases hplain

/-- What is left of alternatives that start and end with the same quote: the first is a name with
a quote behind it, and others follow. -/
theorem exists_of_enclosed_row {marks : List Char} (hmarks : marks ⊆ quoteMarks)
    {entries : List Entry} (htwo : 2 ≤ entries.length)
    (hplain : ∀ entry ∈ entries, entry.hint.isUnion = false)
    (hentries : ∀ entry ∈ entries, entry.hint.Written marks entry.text)
    (henclosed : Enclosed (row '|' entries)) :
    ∃ mark ∈ marks, ∃ (name : DottedName) (after tail : List Char), AllBlank after ∧
      (∃ c ∈ tail, isBlank c = false) ∧
      stripQuotes (row '|' entries) = trim ((name.text ++ mark :: after) ++ '|' :: tail) := by
  obtain ⟨mark, hmark, inner, htrim⟩ := henclosed
  obtain ⟨first, next, others, rfl⟩ := exists_cons_cons htwo
  have hnext : next ∈ next :: others := List.mem_cons_self
  obtain ⟨c, rest, htext, hblank, hquoted⟩ := (hentries first List.mem_cons_self).exists_cons hmarks
    (hplain first List.mem_cons_self)
  obtain ⟨d, hd, hdblank, hdquote⟩ := (hentries next (List.mem_cons_of_mem _ hnext)).exists_mem
  have hdrow : d ∈ row '|' (next :: others) := Entry.mem_row hnext '|' hd
  -- both ways to write the text are compared behind the blanks in front
  obtain ⟨before, after, hbefore, hafter, hwhole⟩ := exists_trim (row '|' (first :: next :: others))
  have hsame : c :: (rest ++ (first.after ++ '|' :: row '|' (next :: others))) =
      mark :: (inner ++ mark :: after) := by
    rw [← trimStart_append_cons first.before_blank hblank,
      ← trimStart_append_cons hbefore (isBlank_of_mem_quoteMarks hmark)]
    rw [htrim, row_cons_cons, Entry.padded, htext] at hwhole
    simpa using congrArg trimStart hwhole
  obtain ⟨rfl, hbehind⟩ := List.cons.inj hsame
  obtain ⟨hmem, name, rfl⟩ := hquoted hmark
  refine ⟨c, hmem, name, first.after, ?_⟩
  have hsplit : (name.text ++ c :: first.after ++ ['|']) ++ row '|' (next :: others) =
      inner ++ c :: after := by
    rw [← hbehind]
    simp
  -- the closing quote stands behind the bar, since the second member has more than it
  rcases List.append_eq_append_iff.mp hsplit with ⟨tail, hinner, hrow⟩ | ⟨back, -, hend⟩
  · refine ⟨tail, first.after_blank, ⟨d, ?_, hdblank⟩, ?_⟩
    · rw [hrow, List.mem_append, List.mem_cons] at hdrow
      rcases hdrow with htail | rfl | hblanks
      · exact htail
      · exact absurd hmark hdquote
      · rw [hafter d hblanks] at hdblank
        cases hdblank
    · rw [stripQuotes_of_enclosed hmark htrim, hinner]
      simp
  · have hdend : d ∈ c :: after := hend ▸ List.mem_append_right back hdrow
    rcases List.mem_cons.mp hdend with rfl | hblanks
    · exact absurd hmark hdquote
    · rw [hafter d hblanks] at hdblank
      cases hdblank

theorem simpleName?_text_append (name : DottedName) {mark : Char} (hmark : mark ∈ quoteMarks) :
    simpleName? (name.text ++ [mark]) = none := by
  have hblank := isBlank_of_mem_quoteMarks hmark
  have hstrip : stripQuotes (name.text ++ [mark]) = name.text ++ [mark] := by
    rw [name.stripQuotes_text_append, name.trim_text_append [mark] (by simpa using hblank)]
  have hdot : '.' ∉ [mark] := by
    rintro hmem
    rw [← List.mem_singleton.mp hmem] at hmark
    revert hmark
    decide
  have hname : isName (name.last.text ++ [mark]) = false := by
    cases hcase : isName (name.last.text ++ [mark]) with
    | false => rfl
    | true =>
        have hmem : mark ∈ (Identifier.ofName _ hcase).dotted.text := by
          rw [Identifier.text_dotted, Identifier.text_ofName]
          exact List.mem_append_right _ List.mem_cons_self
        exact absurd hmem (DottedName.quote_not_mem_text _ hmark)
  rw [simpleName?, hstrip, name.afterLast_text_append [mark] hdot]
  simp [hname]

theorem classChars?_enclosed_union {marks : List Char} (hmarks : marks ⊆ quoteMarks)
    {entries : List Entry} (htwo : 2 ≤ entries.length)
    (hplain : ∀ entry ∈ entries, entry.hint.isUnion = false)
    (hentries : ∀ entry ∈ entries, entry.hint.Written marks entry.text)
    (henclosed : Enclosed (row '|' entries)) : classChars? (row '|' entries) = none := by
  obtain ⟨mark, hmem, name, after, tail, hafter, ⟨c, hc, hcblank⟩, hstrip⟩ :=
    exists_of_enclosed_row hmarks htwo hplain hentries henclosed
  have hmark := hmarks hmem
  have hpasses : Passes '|' 0 (name.text ++ mark :: after) := by
    have hquote : Passes '|' 0 [mark] := .quote (by decide) hmark
    exact (name.passes_text (by decide) 0).append
      (hquote.append (.of_allBlank (by decide) hafter))
  have hfirst : trim (name.text ++ mark :: after) = name.text ++ [mark] := by
    have hnone : AllBlank [] := by decide
    have htrim := trim_append hnone hafter (name.text ++ [mark])
    rw [List.nil_append, List.append_assoc, List.singleton_append] at htrim
    rw [htrim, name.trim_text_append [mark] (by simpa using isBlank_of_mem_quoteMarks hmark)]
  have hparts : topParts '|' (stripQuotes (row '|' entries)) =
      (name.text ++ [mark]) :: splitTop '|' 0 false [] tail := by
    rw [hstrip, topParts_trim (by decide), topParts, hpasses, splitTop, if_neg (by decide),
      if_neg (by decide), if_pos ⟨rfl, rfl⟩, List.append_nil, List.reverse_reverse, hfirst]
  have hmany : 1 < (topParts '|' (stripQuotes (row '|' entries))).length := by
    have hrest : splitTop '|' 0 false [] tail ≠ [] := splitTop_ne_nil hcblank 0 false hc
    rw [hparts, List.length_cons]
    exact Nat.succ_lt_succ (List.length_pos_iff.mpr hrest)
  have hpresent : stripQuotes (name.text ++ [mark]) ≠ "None".toList := by
    intro hsame
    have hkept : mark ∈ stripQuotes (name.text ++ [mark]) := by
      rw [name.stripQuotes_text_append, mem_trim (isBlank_of_mem_quoteMarks hmark)]
      exact List.mem_append_right _ List.mem_cons_self
    rw [hsame] at hkept
    simp only [quoteMarks, List.mem_cons, List.not_mem_nil, or_false] at hmark
    rcases hmark with rfl | rfl <;> exact absurd hkept (by decide)
  rw [classChars?_of_members hmany, hparts, firstPresent?,
    List.find?_cons_of_pos (by simpa using hpresent)]
  exact simpleName?_text_append name hmark

/-! Hints and their classes -/

namespace Hint.Written

variable {marks : List Char} {hint : Hint} {text : List Char}

theorem classChars?_eq (hmarks : marks ⊆ quoteMarks) (hwritten : hint.Written marks text)
    (hopen : ¬(hint.isUnion = true ∧ Enclosed text)) : classChars? text = hint.class? := by
  cases hwritten with
  | dotted name => exact classChars?_of_name (stripQuotes_text name)
  | quoted name hmark => exact classChars?_of_name (stripQuotes_quoted name (hmarks hmark))
  | subscript container entries hne hentries =>
      exact classChars?_subscript hmarks container hne hentries
  | union entries htwo hplain hentries =>
      exact classChars?_union hmarks htwo hplain hentries fun henclosed => hopen ⟨rfl, henclosed⟩

theorem classChars?_eq_none (hmarks : marks ⊆ quoteMarks) (hwritten : hint.Written marks text)
    (henclosed : hint.isUnion = true ∧ Enclosed text) : classChars? text = none := by
  cases hwritten with
  | dotted name => cases henclosed.1
  | quoted name hmark => cases henclosed.1
  | subscript container entries hne hentries => cases henclosed.1
  | union entries htwo hplain hentries =>
      exact classChars?_enclosed_union hmarks htwo hplain hentries henclosed.2

theorem not_enclosed (hwritten : hint.Written [] text) :
    ¬(hint.isUnion = true ∧ Enclosed text) := by
  rintro ⟨hunion, henclosed⟩
  cases hwritten with
  | dotted name => cases hunion
  | quoted name hmark => cases hunion
  | subscript container entries hne hentries => cases hunion
  | union entries htwo hplain hentries =>
      obtain ⟨mark, hmark, -⟩ :=
        exists_of_enclosed_row (List.nil_subset quoteMarks) htwo hplain hentries henclosed
      cases hmark

end Hint.Written

/-- Every hint without quotes names the class that its structure gives, wherever blanks stand
around its separators and inside of its brackets. -/
theorem class_of_written {hint : Hint} {text : String} (hwritten : hint.Written [] text.toList) :
    className? text = hint.class?.map String.ofList := by
  rw [className?, hwritten.classChars?_eq (List.nil_subset quoteMarks) hwritten.not_enclosed]

def nameA : DottedName := (Identifier.ofName ['A'] (by decide +kernel)).dotted

def nameB : DottedName := (Identifier.ofName ['B'] (by decide +kernel)).dotted

def nameNone : DottedName := (Identifier.ofName "None".toList (by decide +kernel)).dotted

def nameList : DottedName := (Identifier.ofName "List".toList (by decide +kernel)).dotted

def nameUnion : DottedName := (Identifier.ofName "Union".toList (by decide +kernel)).dotted

theorem Hint.Written.either {marks : List Char} {first second : DottedName}
    {text text' : List Char} (hfirst : (Hint.dotted first).Written marks text)
    (hsecond : (Hint.dotted second).Written marks text') :
    Hint.Written marks (.union [.dotted first, .dotted second])
      (text ++ ' ' :: '|' :: ' ' :: text') := by
  have hwritten : Hint.Written marks _ _ :=
    .union [.spaced 0 1 (.dotted first) text, .spaced 1 0 (.dotted second) text'] Nat.le.refl
      (by simp [Entry.spaced, Hint.isUnion]) (by simp [Entry.spaced, hfirst, hsecond])
  simpa [row, Entry.spaced, Entry.padded] using hwritten

theorem class_of_written_nested :
    ∃ hint other : Hint, hint.Written [] "Union[ None,A  , List[A | B]]".toList ∧
      className? "Union[ None,A  , List[A | B]]" = some "A" ∧
      other.Written [] "List[B , A]".toList ∧ className? "List[B , A]" = some "B" := by
  have hunion : Hint.Written [] (.union [.dotted nameA, .dotted nameB]) "A | B".toList :=
    .either (.dotted nameA) (.dotted nameB)
  have hlist : Hint.Written [] (.subscript nameList [.union [.dotted nameA, .dotted nameB]])
      "List[A | B]".toList :=
    .subscript nameList [.spaced 0 0 _ _] (by simp) (by simpa [Entry.spaced] using hunion)
  have hwhole : Hint.Written [] (.subscript nameUnion [.dotted nameNone, .dotted nameA,
      .subscript nameList [.union [.dotted nameA, .dotted nameB]]])
      "Union[ None,A  , List[A | B]]".toList :=
    .subscript nameUnion [.spaced 1 0 (.dotted nameNone) nameNone.text,
      .spaced 0 2 (.dotted nameA) nameA.text, .spaced 1 0 _ _] (by simp)
      (by simpa [Entry.spaced, Hint.Written.dotted] using hlist)
  have hpeeled : Hint.Written [] (.subscript nameList [.dotted nameB, .dotted nameA])
      "List[B , A]".toList :=
    .subscript nameList [.spaced 0 1 (.dotted nameB) nameB.text,
      .spaced 1 0 (.dotted nameA) nameA.text] (by simp)
      (by simp [Entry.spaced, Hint.Written.dotted])
  exact ⟨_, _, hwhole, (class_of_written hwhole).trans (by decide +kernel), hpeeled,
    (class_of_written hpeeled).trans (by decide +kernel)⟩

/-- Quotes around names change nothing, unless they make alternatives start and end with the same
quote: those are taken for one name in quotes, and name no class. -/
theorem class_of_quoted {hint : Hint} {plain quoted : String}
    (hplain : hint.Written [] plain.toList) (hquoted : hint.Written quoteMarks quoted.toList) :
    (¬(hint.isUnion = true ∧ Enclosed quoted.toList) → className? quoted = className? plain) ∧
      (hint.isUnion = true ∧ Enclosed quoted.toList → className? quoted = none) := by
  have hclass := hplain.classChars?_eq (List.nil_subset quoteMarks) hplain.not_enclosed
  constructor
  · intro hopen
    rw [className?, className?, hclass, hquoted.classChars?_eq (List.Subset.refl quoteMarks) hopen]
  · intro henclosed
    rw [className?, hquoted.classChars?_eq_none (List.Subset.refl quoteMarks) henclosed]
    rfl

theorem class_of_quoted_first :
    ∃ hint : Hint, hint.Written [] "A | B".toList ∧ hint.Written quoteMarks "'A' | B".toList ∧
      className? "'A' | B" = className? "A | B" := by
  have hplain : Hint.Written [] (.union [.dotted nameA, .dotted nameB]) "A | B".toList :=
    .either (.dotted nameA) (.dotted nameB)
  have hquoted : Hint.Written quoteMarks (.union [.dotted nameA, .dotted nameB])
      "'A' | B".toList :=
    .either (.quoted nameA (by decide)) (.dotted nameB)
  exact ⟨_, hplain, hquoted, (class_of_quoted hplain hquoted).1 (by decide +kernel)⟩

theorem quoted_alternatives_lose_class :
    ∃ hint : Hint, hint.Written [] "A | B".toList ∧ hint.Written quoteMarks "'A' | 'B'".toList ∧
      className? "A | B" = some "A" ∧ className? "'A' | 'B'" = none := by
  have hquoted : Hint.Written quoteMarks (.union [.dotted nameA, .dotted nameB])
      "'A' | 'B'".toList :=
    .either (.quoted nameA (by decide)) (.quoted nameB (by decide))
  exact ⟨_, .either (.dotted nameA) (.dotted nameB), hquoted, by decide +kernel,
    by decide +kernel⟩

end CodeGraph.TypeHint
