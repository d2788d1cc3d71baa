import CodeGraph.Proofs.TypeHint.Scanning

namespace CodeGraph.TypeHint

open Text

/-! The grammar of type hints: names with dots, containers with arguments, and alternatives.  A
hint has many texts, since blanks around its parts are free and a name may stand in quotes. -/

/-! Names -/

/-- A letter or an underscore, and behind it letters, numerals and underscores. -/
structure Identifier where
  first : Char
  rest : List Char
  starts : isAlphabetic first = true ∨ first = '_'
  continues : ∀ c ∈ rest, isAlphanumeric c = true ∨ c = '_'

namespace Identifier

def text (word : Identifier) : List Char :=
  word.first :: word.rest

theorem continues_text (word : Identifier) {c : Char} (hc : c ∈ word.text) :
    isAlphanumeric c = true ∨ c = '_' := by
  rcases List.mem_cons.mp hc with rfl | hrest
  · refine word.starts.imp_left ?_
    intro hletter
    rw [isAlphanumeric, hletter, Bool.true_or]
  · exact word.continues c hrest

theorem isName_text (word : Identifier) : isName word.text = true := by
  have hall : ∀ c ∈ word.text, (isAlphanumeric c || c == '_') = true := by
    intro c hc
    simpa using word.continues_text hc
  have hfirst := word.starts
  rw [text] at hall ⊢
  rw [isName, List.all_eq_true.mpr hall]
  simpa using hfirst

def ofName : (chars : List Char) → isName chars = true → Identifier
  | [], hname => absurd hname Bool.false_ne_true
  | first :: rest, hname =>
      { first
        rest
        starts := by simpa using (Bool.and_eq_true_iff.mp hname).1
        continues := by
          intro c hc
          have hall := (Bool.and_eq_true_iff.mp hname).2
          simpa using List.all_eq_true.mp hall c (List.mem_cons_of_mem first hc) }

@[simp] theorem text_ofName (chars : List Char) (hname : isName chars = true) :
    (ofName chars hname).text = chars := by
  cases chars with
  | nil => cases hname
  | cons first rest => rfl

end Identifier

/-- The name of a class, behind the names of what it stands in. -/
structure DottedName where
  qualifiers : List Identifier
  last : Identifier

def Identifier.dotted (word : Identifier) : DottedName :=
  { qualifiers := [], last := word }

namespace DottedName

def text (name : DottedName) : List Char :=
  (name.qualifiers.flatMap fun word => word.text ++ ['.']) ++ name.last.text

theorem of_mem_text (name : DottedName) {c : Char} (hc : c ∈ name.text) :
    isAlphanumeric c = true ∨ c = '_' ∨ c = '.' := by
  rw [text, List.mem_append, List.mem_flatMap] at hc
  rcases hc with ⟨word, -, hword⟩ | hlast
  · rcases List.mem_append.mp hword with hchar | hdot
    · exact (word.continues_text hchar).imp_right .inl
    · exact .inr (.inr (List.mem_singleton.mp hdot))
  · exact (name.last.continues_text hlast).imp_right .inl

theorem not_mem_text (name : DottedName) {c : Char} (hc : isAlphanumeric c = false)
    (hline : c ≠ '_') (hdot : c ≠ '.') : c ∉ name.text := by
  intro hmem
  rcases name.of_mem_text hmem with halnum | heq | heq
  · rw [halnum] at hc
    cases hc
  · exact hline heq
  · exact hdot heq

theorem isBlank_text (name : DottedName) : ∀ c ∈ name.text, isBlank c = false := by
  intro c hmem
  cases hblank : isBlank c with
  | false => rfl
  | true =>
      have hline : c ≠ '_' := Respaced.ne_of_isBlank (by decide) hblank
      have hdot : c ≠ '.' := Respaced.ne_of_isBlank (by decide) hblank
      exact absurd hmem (name.not_mem_text (isAlphanumeric_of_isBlank hblank) hline hdot)

theorem mark_not_mem_text (name : DottedName) {c : Char} (hc : c ∈ dividers ++ quoteMarks) :
    c ∉ name.text := by
  have hmarks : ∀ d ∈ dividers ++ quoteMarks,
      (!isAlphanumeric d && d != '_' && d != '.') = true :=
    List.all_eq_true.mp (by decide +kernel)
  have hplain := hmarks c hc
  simp only [Bool.and_eq_true, Bool.not_eq_true', bne_iff_ne] at hplain
  exact name.not_mem_text hplain.1.1 hplain.1.2 hplain.2

theorem divider_not_mem_text (name : DottedName) {c : Char} (hc : c ∈ dividers) : c ∉ name.text :=
  name.mark_not_mem_text (List.mem_append_left quoteMarks hc)

theorem quote_not_mem_text (name : DottedName) {c : Char} (hc : c ∈ quoteMarks) : c ∉ name.text :=
  name.mark_not_mem_text (List.mem_append_right dividers hc)

theorem passes_text (name : DottedName) {separator : Char} (hseparator : separator ∈ dividers)
    (depth : Int) : Passes separator depth name.text :=
  .of_plain hseparator fun _ hc hdivider => name.divider_not_mem_text hdivider hc

theorem text_ne_nil (name : DottedName) : name.text ≠ [] := by
  rw [text]
  exact List.append_ne_nil_of_right_ne_nil _ (List.cons_ne_nil name.last.first name.last.rest)

theorem exists_text_eq_cons (name : DottedName) :
    ∃ c rest, name.text = c :: rest ∧ isBlank c = false ∧ c ∉ quoteMarks := by
  obtain ⟨c, rest, htext⟩ := List.exists_cons_of_ne_nil name.text_ne_nil
  have hc : c ∈ name.text := htext ▸ List.mem_cons_self
  exact ⟨c, rest, htext, name.isBlank_text c hc, fun hquote => name.quote_not_mem_text hquote hc⟩

theorem stripQuotes_text_append (name : DottedName) (back : List Char) :
    stripQuotes (name.text ++ back) = trim (name.text ++ back) := by
  obtain ⟨c, rest, htext, hblank, hquote⟩ := name.exists_text_eq_cons
  refine stripQuotes_of_not_enclosed ?_
  rw [htext]
  exact not_enclosed_cons hblank hquote (rest ++ back)

theorem trim_text_append (name : DottedName) (back : List Char)
    (hback : ∀ c ∈ back.getLast?, isBlank c = false) :
    trim (name.text ++ back) = name.text ++ back := by
  refine trim_eq_self ?_ ?_
  · obtain ⟨first, rest, htext, hfirst, -⟩ := name.exists_text_eq_cons
    simpa [htext] using hfirst
  · intro c hc
    cases hlast : back.getLast? with
    | some d =>
        rw [List.getLast?_append, hlast] at hc
        exact hback c (hlast ▸ hc)
    | none =>
        rw [List.getLast?_append, hlast] at hc
        exact name.isBlank_text c (List.mem_of_getLast? hc)

theorem trim_text (name : DottedName) : trim name.text = name.text := by
  have htrim := name.trim_text_append [] (by simp)
  rwa [List.append_nil] at htrim

theorem afterLast_text_append (name : DottedName) (back : List Char) (hback : '.' ∉ back) :
    afterLast '.' (name.text ++ back) = name.last.text ++ back := by
  have hlast : '.' ∉ name.last.text ++ back := by
    rw [List.mem_append]
    rintro (hmem | hmem)
    · have hdot : isAlphanumeric '.' = true ∨ '.' = '_' := name.last.continues_text hmem
      revert hdot
      decide +kernel
    · exact hback hmem
  have hfront : ∀ c, (name.qualifiers.flatMap fun word => word.text ++ ['.']).getLast? = some c →
      c = '.' := by
    intro c hc
    rcases List.eq_nil_or_concat name.qualifiers with hnil | ⟨before, word, hqualifiers⟩
    · rw [hnil] at hc
      cases hc
    · rw [hqualifiers, List.concat_eq_append, List.flatMap_append, List.flatMap_singleton,
        ← List.append_assoc, List.getLast?_concat] at hc
      exact (Option.some.inj hc).symm
  rw [text, List.append_assoc]
  exact afterLast_append hlast hfront

theorem afterLast_text (name : DottedName) : afterLast '.' name.text = name.last.text := by
  have hlast := name.afterLast_text_append [] List.not_mem_nil
  rwa [List.append_nil, List.append_nil] at hlast

/-- The class that the name gives: its last part, unless that stands for no class. -/
def class? (name : DottedName) : Option (List Char) :=
  if name.last.text ∈ ["None".toList, "Any".toList, "object".toList] then none
  else some name.last.text

def isNone (name : DottedName) : Bool :=
  name.qualifiers.isEmpty && name.last.text == "None".toList

theorem text_eq_none_iff (name : DottedName) :
    name.text = "None".toList ↔ name.isNone = true := by
  cases hqualifiers : name.qualifiers with
  | nil => simp [text, isNone, hqualifiers]
  | cons word others =>
      have hdot : '.' ∈ name.text := by
        rw [text, hqualifiers]
        simp
      have hne : name.text ≠ "None".toList := by
        intro hsame
        rw [hsame] at hdot
        revert hdot
        decide
      rw [isNone, hqualifiers]
      exact iff_of_false hne Bool.false_ne_true

end DottedName

@[simp] theorem Identifier.text_dotted (word : Identifier) : word.dotted.text = word.text :=
  rfl

/-! Hints -/

inductive Hint where
  | dotted (name : DottedName)
  | subscript (container : DottedName) (arguments : List Hint)
  | union (members : List Hint)

namespace Hint

def isUnion : Hint → Bool
  | union _ => true
  | _ => false

def isNone : Hint → Bool
  | dotted name => name.isNone
  | _ => false

def nameClass? : Hint → Option (List Char)
  | dotted name => name.class?
  | _ => none

/-- The class of the first hint other than `None`, if it is a name. -/
def firstClass? (members : List Hint) : Option (List Char) :=
  (members.find? fun member => !member.isNone).bind nameClass?

/-- The containers that stand for their first argument. -/
def containerNames : List String :=
  ["Optional", "List", "Set", "Tuple", "Sequence", "Iterator", "Type", "list", "set", "tuple",
    "type"]

/-- The class that a hint names, from its structure. -/
def class? : Hint → Option (List Char)
  | dotted name => name.class?
  | union members => firstClass? members
  | subscript container arguments =>
      if container.last.text = "Union".toList then firstClass? arguments
      else if String.ofList container.last.text ∈ containerNames then
        arguments.head?.bind nameClass?
      else none

end Hint

/-! Texts of hints -/

/-- A hint in a row of hints: its text, and the blanks around it. -/
structure Entry where
  hint : Hint
  text : List Char
  before : List Char
  after : List Char
  before_blank : AllBlank before
  after_blank : AllBlank after

namespace Entry

def padded (entry : Entry) : List Char :=
  entry.before ++ (entry.text ++ entry.after)

theorem trim_padded (entry : Entry) : trim entry.padded = trim entry.text :=
  trim_append entry.before_blank entry.after_blank entry.text

theorem passes_padded (entry : Entry) {separator : Char} {depth : Int}
    (hseparator : isBlank separator = false) (htext : Passes separator depth entry.text) :
    Passes separator depth entry.padded :=
  (Passes.of_allBlank hseparator entry.before_blank).append
    (htext.append (.of_allBlank hseparator entry.after_blank))

/-- A hint with some blanks on either side. -/
def spaced (left right : Nat) (hint : Hint) (text : List Char) : Entry :=
  { hint
    text
    before := List.replicate left ' '
    after := List.replicate right ' '
    before_blank := fun c hc => by rw [List.eq_of_mem_replicate hc]; decide
    after_blank := fun c hc => by rw [List.eq_of_mem_replicate hc]; decide }

end Entry

/-- The hints of a row with separators between them. -/
def row (separator : Char) (entries : List Entry) : List Char :=
  List.intercalate [separator] (entries.map Entry.padded)

theorem row_cons_cons (separator : Char) (entry next : Entry) (others : List Entry) :
    row separator (entry :: next :: others) =
      entry.padded ++ separator :: row separator (next :: others) := by
  rw [row, List.map_cons, List.map_cons, List.intercalate_cons_cons, List.append_assoc]
  rfl

/-- The text is one of the texts of the hint, where names may stand between two of the given
marks.  Blanks may stand around separators and inside of brackets; alternatives are two or more,
and none of them has alternatives itself. -/
inductive Hint.Written (marks : List Char) : Hint → List Char → Prop
  | dotted (name : DottedName) : Written marks (.dotted name) name.text
  | quoted (name : DottedName) {mark : Char} (hmark : mark ∈ marks) :
      Written marks (.dotted name) (mark :: (name.text ++ [mark]))
  | subscript (container : DottedName) (entries : List Entry) (hne : entries ≠ [])
      (hentries : ∀ entry ∈ entries, Written marks entry.hint entry.text) :
      Written marks (.subscript container (entries.map Entry.hint))
        (container.text ++ '[' :: (row ',' entries ++ [']']))
  | union (entries : List Entry) (htwo : 2 ≤ entries.length)
      (hplain : ∀ entry ∈ entries, entry.hint.isUnion = false)
      (hentries : ∀ entry ∈ entries, Written marks entry.hint entry.text) :
      Written marks (.union (entries.map Entry.hint)) (row '|' entries)

end CodeGraph.TypeHint
