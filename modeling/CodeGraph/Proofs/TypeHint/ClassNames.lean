import CodeGraph.Proofs.TypeHint.Reading

namespace CodeGraph.TypeHint

open Text

/-! The class that a text names, whether or not the text is a hint.  Every way through the reader
ends in one test, so that the class is an identifier that stands in the text; and read again, in
any of the forms that name a class, it names itself. -/

/-! The test -/

theorem simpleName?_eq_some {text found : List Char} (hfound : simpleName? text = some found) :
    isName found = true ∧ found ∉ ["None".toList, "Any".toList, "object".toList] ∧
      found <:+: text := by
  rw [simpleName?] at hfound
  split at hfound
  · cases hfound
  · dsimp only at hfound
    split at hfound
    · next htest =>
        obtain ⟨hname, hspecific⟩ := Bool.and_eq_true_iff.mp htest
        obtain rfl := Option.some.inj hfound
        rw [unspecific_eq] at hspecific
        refine ⟨hname, by simpa using hspecific, ?_⟩
        exact (afterLast_suffix '.' _).isInfix.trans (infix_stripQuotes text)
    · cases hfound

/-- The class is found in a piece of the text by the one test. -/
theorem exists_piece {text found : List Char} (hfound : classChars? text = some found) :
    ∃ piece, piece <:+: text ∧ simpleName? piece = some found := by
  have hinside := infix_stripQuotes text
  have hpresent : ∀ parts : List (List Char), (∀ part ∈ parts, part <:+: text) →
      (firstPresent? parts).bind simpleName? = some found →
      ∃ piece, piece <:+: text ∧ simpleName? piece = some found := by
    intro parts hparts hbind
    obtain ⟨piece, hpiece, hname⟩ := Option.bind_eq_some_iff.mp hbind
    exact ⟨piece, hparts piece (List.mem_of_find?_eq_some hpiece), hname⟩
  rw [classChars?] at hfound
  split at hfound
  · exact hpresent _ (fun part hpart => (infix_of_mem_topParts hpart).trans hinside) hfound
  · split at hfound
    · exact ⟨stripQuotes text, hinside, hfound⟩
    · split at hfound
      · cases hfound
      · next hsubscript =>
          have harguments : ∀ part ∈ topParts ',' _, part <:+: text := fun part hpart =>
            (infix_of_mem_topParts hpart).trans
              ((infix_of_splitSubscript? hsubscript).trans hinside)
          dsimp only at hfound
          split at hfound
          · exact hpresent _ harguments hfound
          · split at hfound
            · obtain ⟨piece, hpiece, hname⟩ := Option.bind_eq_some_iff.mp hfound
              exact ⟨piece, harguments piece (List.mem_of_head? hpiece), hname⟩
            · cases hfound

/-! Reading a class again -/

/-- The text names itself: bare, with blanks around it, in quotes, behind a package, and as the
argument of a container. -/
structure NamesItself (name : String) : Prop where
  bare : className? name = some name
  spaced : ∀ before after : String, AllBlank before.toList → AllBlank after.toList →
    className? (before ++ name ++ after) = some name
  quoted : ∀ mark ∈ quoteMarks,
    className? (String.singleton mark ++ name ++ String.singleton mark) = some name
  qualified : ∀ package : Identifier,
    className? (String.ofList package.text ++ "." ++ name) = some name
  contained : ∀ container ∈ Hint.containerNames,
    className? (container ++ "[" ++ name ++ "]") = some name

section SpecificName

variable {word : Identifier}
  (hspecific : word.text ∉ ["None".toList, "Any".toList, "object".toList])
include hspecific

theorem className?_of_name (name : DottedName) (hlast : name.last = word) {text : String}
    (hstrip : stripQuotes text.toList = name.text) :
    className? text = some (String.ofList word.text) := by
  rw [className?, classChars?_of_name hstrip, DottedName.class?, hlast, if_neg hspecific]
  rfl

theorem className?_of_container {container : String}
    (hcontainer : container ∈ Hint.containerNames) :
    className? (container ++ "[" ++ String.ofList word.text ++ "]") =
      some (String.ofList word.text) := by
  have hnames : ∀ name ∈ Hint.containerNames, isName name.toList = true :=
    List.all_eq_true.mp (by decide +kernel)
  have hunion : container.toList ≠ "Union".toList := by
    intro hsame
    rw [String.toList_inj.mp hsame] at hcontainer
    revert hcontainer
    decide
  obtain ⟨outer, houter, hlast⟩ : ∃ outer : DottedName,
      outer.text = container.toList ∧ outer.last.text = container.toList :=
    ⟨(Identifier.ofName _ (hnames container hcontainer)).dotted, by simp,
      by simp [Identifier.dotted]⟩
  have hwritten : Hint.Written [] (.subscript outer [.dotted word.dotted])
      (container.toList ++ '[' :: (word.text ++ [']'])) := by
    have hrow : Hint.Written [] _ _ :=
      .subscript outer [.spaced 0 0 (.dotted word.dotted) word.text] (by simp)
        (by simpa [Entry.spaced] using Hint.Written.dotted word.dotted)
    simpa [row, Entry.spaced, Entry.padded, houter] using hrow
  have htext : (container ++ "[" ++ String.ofList word.text ++ "]").toList =
      container.toList ++ '[' :: (word.text ++ [']']) := by simp
  have hclass := hwritten.classChars?_eq (List.nil_subset quoteMarks) hwritten.not_enclosed
  rw [className?, htext, hclass, Hint.class?, hlast, if_neg hunion, String.ofList_toList,
    if_pos hcontainer]
  exact congrArg (Option.map String.ofList) (if_neg hspecific)

theorem namesItself : NamesItself (String.ofList word.text) where
  bare := by
    refine className?_of_name hspecific word.dotted rfl ?_
    rw [String.toList_ofList, ← word.text_dotted, stripQuotes_text]
  spaced := by
    intro before after hbefore hafter
    refine className?_of_name hspecific word.dotted rfl ?_
    rw [String.toList_append, String.toList_append, String.toList_ofList, List.append_assoc,
      ← stripQuotes_trim, trim_append hbefore hafter, stripQuotes_trim, ← word.text_dotted,
      stripQuotes_text]
  quoted := by
    intro mark hmark
    refine className?_of_name hspecific word.dotted rfl ?_
    simpa using stripQuotes_quoted word.dotted hmark
  qualified := by
    intro package
    refine className?_of_name hspecific ⟨[package], word⟩ rfl ?_
    simpa [DottedName.text] using stripQuotes_text ⟨[package], word⟩
  contained := by
    intro container hcontainer
    exact className?_of_container hspecific hcontainer

end SpecificName

/-- Any text, malformed ones included, names no class or an identifier that stands in it and is
none of those that stand for no class; and that identifier names itself. -/
theorem class_names_itself (hint : String) :
    className? hint = none ∨
      ∃ word : Identifier, className? hint = some (String.ofList word.text) ∧
        word.text ∉ ["None".toList, "Any".toList, "object".toList] ∧
        word.text <:+: hint.toList ∧
        NamesItself (String.ofList word.text) := by
  cases hclass : classChars? hint.toList with
  | none => exact .inl (by rw [className?, hclass]; rfl)
  | some found =>
      obtain ⟨piece, hpiece, hsimple⟩ := exists_piece hclass
      obtain ⟨hname, hspecific, hstands⟩ := simpleName?_eq_some hsimple
      rw [← Identifier.text_ofName found hname] at hclass hspecific hstands
      exact .inr ⟨.ofName found hname, by rw [className?, hclass]; rfl, hspecific,
        hstands.trans hpiece, namesItself hspecific⟩

end CodeGraph.TypeHint
