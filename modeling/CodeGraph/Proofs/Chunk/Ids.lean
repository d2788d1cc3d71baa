import CodeGraph.Chunk.Basic
import CodeGraph.Proofs.Text.Pieces

namespace CodeGraph

/-! Reading the parts of a chunk back from its id.  Where the path is known, lines and kind follow
it; where it is not, the id is read from its end, since a path may hold any character. -/

/-! Behind a path -/

/-- A number ends at the first character that is no digit. -/
theorem number_append_inj (separator : Char) (hseparator : separator.isDigit = false)
    {first second : Nat} {rest others : List Char}
    (hsame : (toString first).toList ++ separator :: rest =
      (toString second).toList ++ separator :: others) : first = second ∧ rest = others := by
  have hdigits : ∀ (number : Nat) (behind : List Char),
      ((toString number).toList ++ separator :: behind).takeWhile Char.isDigit =
        Nat.toDigits 10 number := by
    intro number behind
    rw [Nat.toString_eq_repr, Nat.toList_repr, List.takeWhile_append_of_pos fun c hc =>
      Nat.isDigit_of_mem_toDigits (by decide) (by decide) hc]
    simp [hseparator]
  have hnumbers : Nat.toDigits 10 first = Nat.toDigits 10 second := by
    rw [← hdigits first rest, hsame, hdigits]
  have hfirst : first = second := by
    rw [← Nat.ofDigitChars_toDigits (by decide) (by decide) (b := 10) (n := first), hnumbers,
      Nat.ofDigitChars_toDigits (by decide) (by decide)]
  subst hfirst
  exact ⟨rfl, (List.cons.inj (List.append_cancel_left hsame)).2⟩

theorem ChunkKind.eq_of_name_append {kind other : ChunkKind} {rest others : List Char}
    (hsame : kind.name.toList ++ rest = other.name.toList ++ others) : kind = other := by
  have hstart := congrArg (List.take 2) hsame
  cases kind <;> cases other <;> first | rfl | exact absurd hstart (by simp [ChunkKind.name])

/-- The lines and the kind of a chunk stand in its id. -/
theorem lines_of_chunkId {file : String} {start stop start' stop' : Nat} {kind kind' : ChunkKind}
    {parent name parent' name' : Option String}
    (hsame : chunkId file start stop kind parent name =
      chunkId file start' stop' kind' parent' name') :
    start = start' ∧ stop = stop' ∧ kind = kind' := by
  have hlist := congrArg String.toList hsame
  simp only [chunkId, String.toList_append, List.append_assoc] at hlist
  have hstarts := List.append_cancel_left (List.append_cancel_left hlist)
  obtain ⟨rfl, hstops⟩ := number_append_inj '-' rfl hstarts
  obtain ⟨rfl, hkinds⟩ := number_append_inj ':' rfl hstops
  exact ⟨rfl, rfl, ChunkKind.eq_of_name_append hkinds⟩

/-! From the end -/

/-- A word without the characters that separate the parts of an id. -/
def IsPlainWord (word : String) : Prop :=
  ':' ∉ word.toList ∧ '.' ∉ word.toList

/-- The class around a chunk and its own name, as they may stand in an id: both plain words, and
no class without a name. -/
structure IsLabel (parent name : Option String) : Prop where
  parent_plain : ∀ word ∈ parent, IsPlainWord word
  name_plain : ∀ word ∈ name, IsPlainWord word
  named : parent.isSome = true → name.isSome = true

def lineSpan (start stop : Nat) : List Char :=
  (toString start).toList ++ '-' :: (toString stop).toList

def located (file : String) (start stop : Nat) : List Char :=
  (Text.forwardSlashes file).toList ++ ':' :: lineSpan start stop

/-- The name as it stands in an id, behind that of the class. -/
def labelChars : Option String → String → List Char
  | some parent, name => parent.toList ++ '.' :: name.toList
  | none, name => name.toList

theorem chunkId_unnamed (file : String) (start stop : Nat) (kind : ChunkKind) :
    (chunkId file start stop kind none none).toList =
      located file start stop ++ ':' :: kind.name.toList := by
  simp [chunkId, located, lineSpan]

theorem chunkId_named (file : String) (start stop : Nat) (kind : ChunkKind)
    (parent : Option String) (name : String) :
    (chunkId file start stop kind parent (some name)).toList =
      (located file start stop ++ ':' :: kind.name.toList) ++ ':' :: labelChars parent name := by
  cases parent <;> simp [chunkId, located, lineSpan, labelChars]

theorem not_mem_numeral {c : Char} (hc : c.isDigit = false) (number : Nat) :
    c ∉ (toString number).toList := by
  intro hmem
  rw [Nat.toString_eq_repr, Nat.toList_repr] at hmem
  rw [Nat.isDigit_of_mem_toDigits (by decide) (by decide) hmem] at hc
  cases hc

theorem colon_not_mem_lineSpan (start stop : Nat) : ':' ∉ lineSpan start stop := by
  rw [lineSpan, List.mem_append, List.mem_cons]
  rintro (hmem | hdash | hmem)
  · exact not_mem_numeral rfl start hmem
  · cases hdash
  · exact not_mem_numeral rfl stop hmem

theorem lineSpan_inj {start stop start' stop' : Nat}
    (hsame : lineSpan start stop = lineSpan start' stop') : start = start' ∧ stop = stop' := by
  obtain ⟨hstart, hrest⟩ := number_append_inj '-' rfl hsame
  have hends := congrArg (fun chars => chars ++ ['-']) hrest
  exact ⟨hstart, (number_append_inj '-' rfl hends).1⟩

theorem colon_not_mem_name (kind : ChunkKind) : ':' ∉ kind.name.toList := by
  cases kind <;> decide

theorem lineSpan_ne_name (start stop : Nat) (kind : ChunkKind) :
    lineSpan start stop ≠ kind.name.toList := by
  intro hsame
  have hdash : '-' ∈ kind.name.toList := by
    rw [← hsame]
    simp [lineSpan]
  revert hdash
  -- a kind has no dash, which stands in all lines
  cases kind <;> decide

theorem located_inj {file file' : String} {start stop start' stop' : Nat}
    (hsame : located file start stop = located file' start' stop') :
    Text.forwardSlashes file = Text.forwardSlashes file' ∧ start = start' ∧ stop = stop' := by
  obtain ⟨hpath, hlines⟩ := Text.append_separator_inj (colon_not_mem_lineSpan start stop)
    (colon_not_mem_lineSpan start' stop') hsame
  exact ⟨String.toList_inj.mp hpath, lineSpan_inj hlines⟩

theorem located_kind_inj {file file' : String} {start stop start' stop' : Nat}
    {kind kind' : ChunkKind}
    (hsame : located file start stop ++ ':' :: kind.name.toList =
      located file' start' stop' ++ ':' :: kind'.name.toList) :
    Text.forwardSlashes file = Text.forwardSlashes file' ∧ start = start' ∧ stop = stop' ∧
      kind = kind' := by
  obtain ⟨hlocated, hkind⟩ := Text.append_separator_inj (colon_not_mem_name kind)
    (colon_not_mem_name kind') hsame
  obtain ⟨hpath, hstart, hstop⟩ := located_inj hlocated
  have hkinds : kind.name.toList ++ [] = kind'.name.toList ++ [] := by rw [hkind]
  exact ⟨hpath, hstart, hstop, ChunkKind.eq_of_name_append hkinds⟩

theorem IsLabel.colon_not_mem {parent : Option String} {name : String}
    (hlabel : IsLabel parent (some name)) : ':' ∉ labelChars parent name := by
  have hname := (hlabel.name_plain name rfl).1
  cases parent with
  | none => exact hname
  | some owner =>
      have howner := (hlabel.parent_plain owner rfl).1
      simp [labelChars, hname, howner]

/-- A name has no dot of its own, so that a dot in front of it ends the name of a class. -/
theorem labelChars_inj {parent parent' : Option String} {name name' : String}
    (hname : IsPlainWord name) (hname' : IsPlainWord name')
    (hsame : labelChars parent name = labelChars parent' name') :
    parent = parent' ∧ name = name' := by
  cases parent with
  | none =>
      cases parent' with
      | none => exact ⟨rfl, String.toList_inj.mp hsame⟩
      | some owner' =>
          have hdot : '.' ∈ labelChars none name := by
            rw [hsame]
            simp [labelChars]
          exact absurd hdot hname.2
  | some owner =>
      cases parent' with
      | none =>
          have hdot : '.' ∈ labelChars none name' := by
            rw [← hsame]
            simp [labelChars]
          exact absurd hdot hname'.2
      | some owner' =>
          obtain ⟨howner, hnames⟩ := Text.append_separator_inj hname.2 hname'.2 hsame
          exact ⟨congrArg some (String.toList_inj.mp howner), String.toList_inj.mp hnames⟩

/-- An id that ends with a kind is not one that ends with a name: the kind before that name would
stand where the lines are. -/
theorem unnamed_ne_named {file file' : String} {start stop start' stop' : Nat}
    {kind kind' : ChunkKind} {parent' : Option String} {name' : String}
    (hlabel' : IsLabel parent' (some name')) :
    chunkId file start stop kind none none ≠
      chunkId file' start' stop' kind' parent' (some name') := by
  intro hsame
  have hlist := congrArg String.toList hsame
  rw [chunkId_unnamed, chunkId_named] at hlist
  have hfront := (Text.append_separator_inj (colon_not_mem_name kind) hlabel'.colon_not_mem hlist).1
  have hlines := (Text.append_separator_inj (colon_not_mem_lineSpan start stop)
    (colon_not_mem_name kind') hfront).2
  exact lineSpan_ne_name start stop kind' hlines

theorem named_inj {file file' : String} {start stop start' stop' : Nat} {kind kind' : ChunkKind}
    {parent parent' : Option String} {name name' : String} (hlabel : IsLabel parent (some name))
    (hlabel' : IsLabel parent' (some name'))
    (hsame : chunkId file start stop kind parent (some name) =
      chunkId file' start' stop' kind' parent' (some name')) :
    Text.forwardSlashes file = Text.forwardSlashes file' ∧ start = start' ∧ stop = stop' ∧
      kind = kind' ∧ parent = parent' ∧ some name = some name' := by
  have hlist := congrArg String.toList hsame
  rw [chunkId_named, chunkId_named] at hlist
  obtain ⟨hfront, hlabels⟩ :=
    Text.append_separator_inj hlabel.colon_not_mem hlabel'.colon_not_mem hlist
  obtain ⟨hpath, hstart, hstop, hkind⟩ := located_kind_inj hfront
  obtain ⟨hparent, hname⟩ :=
    labelChars_inj (hlabel.name_plain name rfl) (hlabel'.name_plain name' rfl) hlabels
  exact ⟨hpath, hstart, hstop, hkind, hparent, congrArg some hname⟩

theorem IsLabel.parent_eq_none {parent : Option String} (hlabel : IsLabel parent none) :
    parent = none := by
  cases parent with
  | none => rfl
  | some owner => cases hlabel.named rfl

/-- An id says all that it is made of, whatever characters the path has: the path up to its
slashes, the lines, the kind, and the names of the chunk and of the class around it. -/
theorem chunkId_eq_iff {file file' : String} {start stop start' stop' : Nat}
    {kind kind' : ChunkKind} {parent name parent' name' : Option String}
    (hlabel : IsLabel parent name) (hlabel' : IsLabel parent' name') :
    chunkId file start stop kind parent name = chunkId file' start' stop' kind' parent' name' ↔
      Text.forwardSlashes file = Text.forwardSlashes file' ∧ start = start' ∧ stop = stop' ∧
        kind = kind' ∧ parent = parent' ∧ name = name' := by
  constructor
  · intro hsame
    cases name with
    | none =>
        obtain rfl := hlabel.parent_eq_none
        cases name' with
        | none =>
            obtain rfl := hlabel'.parent_eq_none
            have hlist := congrArg String.toList hsame
            rw [chunkId_unnamed, chunkId_unnamed] at hlist
            obtain ⟨hpath, hstart, hstop, hkind⟩ := located_kind_inj hlist
            exact ⟨hpath, hstart, hstop, hkind, rfl, rfl⟩
        | some word' => exact absurd hsame (unnamed_ne_named hlabel')
    | some word =>
        cases name' with
        | none =>
            obtain rfl := hlabel'.parent_eq_none
            exact absurd hsame.symm (unnamed_ne_named hlabel)
        | some word' => exact named_inj hlabel hlabel' hsame
  · rintro ⟨hpath, rfl, rfl, rfl, rfl, rfl⟩
    unfold chunkId
    rw [hpath]

/-- A path that ends like an id is not taken for one. -/
theorem chunkId_eq_iff_colons :
    IsLabel (some "A") (some "run") ∧ IsLabel none none ∧
      chunkId "m.py:1-2:class" 3 4 .method (some "A") (some "run") ≠
        chunkId "m.py" 1 2 .classDef none none := by
  have hmethod : IsLabel (some "A") (some "run") :=
    { parent_plain := by simp [IsPlainWord]
      name_plain := by simp [IsPlainWord]
      named := fun _ => rfl }
  have hclass : IsLabel none none :=
    { parent_plain := by simp
      name_plain := by simp
      named := id }
  refine ⟨hmethod, hclass, ?_⟩
  intro hsame
  have hstart := ((chunkId_eq_iff hmethod hclass).mp hsame).2.1
  cases hstart

end CodeGraph
