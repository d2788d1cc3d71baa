import CodeGraph.Proofs.Chunk.Copies
import CodeGraph.Proofs.Reference.Headers
import CodeGraph.Proofs.Reference.ImportedPaths

namespace CodeGraph

open Syntax Names SyntaxTree

/-! References of a node and of its copy.  They have the same targets, unless an import names a path
over several lines. -/

namespace Reference

section

variable {width rows : Nat} {original copy : SyntaxTree}

/-! Receivers -/

mutual

theorem rel_callee? {width rows : Nat} {original copy : SyntaxTree}
    (hcopied : Copied width rows original copy) :
    Option.Rel (Copied width rows) (callee? original) (callee? copy) := by
  cases original with
  | node kind role start stop text children =>
      cases copy with
      | node kind' role' start' stop' text' children' =>
          have hkind : kind = kind' := hcopied.kind_eq
          rw [callee?, callee?, ← hkind]
          split
          · exact rel_calleeInside? hcopied.children_eq
          · rw [hkind] at hcopied ⊢
            exact .some hcopied

theorem rel_calleeInside? {width rows : Nat} {trees others : List SyntaxTree}
    (hall : List.Forall₂ (Copied width rows) trees others) :
    Option.Rel (Copied width rows) (calleeInside? trees) (calleeInside? others) := by
  cases trees with
  | nil =>
      cases hall
      rw [calleeInside?]
      exact .none
  | cons tree rest =>
      cases hall with
      | cons hfirst hrest =>
          rw [calleeInside?, calleeInside?, hfirst.kind_eq]
          split
          · exact rel_callee? hfirst
          · exact rel_calleeInside? hrest

end

theorem isSuperCall_copied (hcopied : Copied width rows original copy) :
    isSuperCall original = isSuperCall copy := by
  rw [isSuperCall, isSuperCall]
  rcases rel_cases (hcopied.part? .function) with
    ⟨hnone, hnone'⟩ | ⟨function, found, hfunction, hfound, hsame⟩
  · rw [hnone, hnone']
  · rw [hfunction, hfound]
    dsimp only
    rw [← hsame.kind_eq]
    by_cases hkind : function.kind = .identifier
    · rw [hsame.text_of_identifier hkind]
    · rw [beq_eq_false_iff_ne.mpr hkind, Bool.false_and, Bool.false_and]

/-- What the receiver stands for is decided by more of the class than the method around it: by its
bases, or by what other methods assign to the attribute. -/
def isBoundByClass (receiver : SyntaxTree) : Bool :=
  match receiver.kind with
  | .call => isSuperCall receiver
  | .memberAccess => (receiverName? receiver).any isAttributeKey
  | _ => false

section

variable {context other : Context} (hfile : context.file = other.file)
  (htype : ∀ name, isAttributeKey name = false → context.typeOf? name = other.typeOf? name)

include hfile htype

theorem receiverClass?_copied (hcopied : Copied width rows original copy)
    (hplain : isBoundByClass original = false) (current : Option String) :
    receiverClass? context current copy = receiverClass? other current original := by
  have hformed := hcopied.grammatical.formed
  rw [receiverClass?, receiverClass?, ← hcopied.kind_eq]
  split
  · next hkind =>
      rw [Formed, hkind] at hformed
      have howner := ownerOf?_congr hfile (htype _ (isAttributeKey_of_not_mem hformed.2.1))
      rw [← hcopied.text_of_identifier hkind, howner]
  · next hkind =>
      have hsuper : isSuperCall original = false := by rwa [isBoundByClass, hkind] at hplain
      rw [← isSuperCall_copied hcopied, hsuper]
      rfl
  · next hkind =>
      rw [isBoundByClass, hkind, receiverName?, hkind] at hplain
      rw [← hcopied.respaced.squeeze_eq, ownerOf?_congr hfile (htype _ hplain)]
  · rfl

/-! Calls -/

theorem callTarget?_copied (hcopied : Copied width rows original copy)
    (hplain : (receiver? original).any isBoundByClass = false) (current : Option String) :
    callTarget? context current copy = callTarget? other current original := by
  rcases rel_cases (rel_bind (hcopied.part? .function) rel_callee?) with
    ⟨hnone, hnone'⟩ | ⟨callee, found, hcallee, hfound, hsame⟩
  · simp [callTarget?, hnone, hnone']
  · simp only [callTarget?, hcallee, hfound, Option.bind_eq_bind, Option.bind_some]
    rw [← hsame.kind_eq]
    split
    · next hkind => rw [hsame.text_of_identifier hkind, unalias_congr hfile]
    · next haccess =>
        rcases rel_cases (hsame.part? .object) with
          ⟨hnone, hnone'⟩ | ⟨receiver, moved, hreceiver, hmoved, hobject⟩
        · rw [hnone, hnone']
          rfl
        · have hread : receiver? original = some receiver := by
            simp [receiver?, hcallee, haccess, hreceiver]
          rw [hread, Option.any_some] at hplain
          have howner := receiverClass?_copied hfile htype hobject hplain current
          rw [hreceiver, hmoved, Option.bind_some, Option.bind_some]
          refine (bind_eq_of_rel (rel_of_map_text (hsame.member_eq haccess)) fun hmember => ?_).symm
          rw [methodTarget, methodTarget, howner, hmember]
    all_goals rfl

end

/-- A call on a receiver that the class decides about refers to something. -/
theorem exists_target_of_isBoundByClass (hcopied : Copied width rows original copy)
    (hbound : (receiver? original).any isBoundByClass = true) (context : Context)
    (current : Option String) :
    ∃ target, callTarget? context current copy = some (target, true) ∧ target ≠ "" := by
  obtain ⟨receiver, hreceiver, -⟩ := (Option.any_eq_true _ _).mp hbound
  obtain ⟨callee, hcallee, hobject⟩ := Option.bind_eq_some_iff.mp hreceiver
  split at hobject
  · next haccess =>
      rcases rel_cases (rel_bind (hcopied.part? .function) rel_callee?) with
        ⟨hnone, -⟩ | ⟨one, found, hone, hfound, hsame⟩
      · rw [hcallee] at hnone
        cases hnone
      · cases hcallee.symm.trans hone
        have hformed := hsame.grammatical.formed
        rw [Formed, haccess] at hformed
        obtain ⟨-, member, -, hmember, hne, -⟩ := hformed
        have htext := hsame.member_eq haccess
        rw [hmember, Option.map_some] at htext
        obtain ⟨named, hnamed, hsameText⟩ := Option.map_eq_some_iff.mp htext.symm
        rcases rel_cases (hsame.part? .object) with
          ⟨hnone, -⟩ | ⟨-, moved, -, hmoved, -⟩
        · rw [hobject] at hnone
          cases hnone
        · refine ⟨methodTarget context current moved named.text, ?_,
            methodTarget_ne_empty context current moved (by rwa [hsameText])⟩
          simp [callTarget?, hfound, ← hsame.kind_eq, haccess, hmoved, hnamed]
  · cases hobject

/-! Exceptions -/

theorem exceptionName?_copied {context other : Context} (hfile : context.file = other.file)
    (hcopied : Copied width rows original copy) :
    exceptionName? context copy = exceptionName? other original := by
  rw [exceptionName?, exceptionName?, ← hcopied.kind_eq]
  split
  · next hkind => rw [hcopied.text_of_identifier hkind, unalias_congr hfile]
  · next hkind => rw [hcopied.member_eq hkind]
  · rfl

mutual

theorem exceptionNames_copied {context other : Context} (hfile : context.file = other.file)
    {width rows : Nat} {original copy : SyntaxTree} (hcopied : Copied width rows original copy) :
    exceptionNames context copy = exceptionNames other original := by
  cases original with
  | node kind role start stop text children =>
      cases copy with
      | node kind' role' start' stop' text' children' =>
          have hkind : kind = kind' := hcopied.kind_eq
          have hname := exceptionName?_copied hfile hcopied
          cases hkind
          rw [exceptionNames.eq_def, exceptionNames.eq_def]
          dsimp only
          split
          · exact exceptionNamesOfAll_copied hfile hcopied.children_eq
          · exact exceptionNamesOfAll_copied hfile hcopied.children_eq
          · exact exceptionNamesOfAll_copied hfile hcopied.children_eq
          · exact exceptionNamesOfFirst_copied hfile hcopied.children_eq
          · rw [hname]

theorem exceptionNamesOfAll_copied {context other : Context} (hfile : context.file = other.file)
    {width rows : Nat} {trees others : List SyntaxTree}
    (hall : List.Forall₂ (Copied width rows) trees others) :
    exceptionNamesOfAll context others = exceptionNamesOfAll other trees := by
  cases trees with
  | nil =>
      cases hall
      rw [exceptionNamesOfAll, exceptionNamesOfAll]
  | cons tree rest =>
      cases hall with
      | cons hfirst hrest =>
          rw [exceptionNamesOfAll, exceptionNamesOfAll, ← hfirst.kind_eq,
            exceptionNames_copied hfile hfirst, exceptionNamesOfAll_copied hfile hrest]

theorem exceptionNamesOfFirst_copied {context other : Context} (hfile : context.file = other.file)
    {width rows : Nat} {trees others : List SyntaxTree}
    (hall : List.Forall₂ (Copied width rows) trees others) :
    exceptionNamesOfFirst context others = exceptionNamesOfFirst other trees := by
  cases trees with
  | nil =>
      cases hall
      rw [exceptionNamesOfFirst, exceptionNamesOfFirst]
  | cons tree rest =>
      cases hall with
      | cons hfirst hrest =>
          rw [exceptionNamesOfFirst, exceptionNamesOfFirst, ← hfirst.kind_eq,
            exceptionNames_copied hfile hfirst, exceptionNamesOfFirst_copied hfile hrest]

end

/-! Bases -/

mutual

theorem baseName?_copied (imports : Imports) {width rows : Nat} {original copy : SyntaxTree}
    (hcopied : Copied width rows original copy) :
    baseName? imports copy = baseName? imports original := by
  cases original with
  | node kind role start stop text children =>
      cases copy with
      | node kind' role' start' stop' text' children' =>
          have hkind : kind = kind' := hcopied.kind_eq
          cases hkind
          rw [baseName?.eq_def, baseName?.eq_def]
          dsimp only
          congr 1
          split
          · next hidentifier =>
              have htext : text = text' := hcopied.text_of_identifier rfl
              rw [htext]
          · next haccess => rw [hcopied.member_eq rfl]
          · exact baseNameOfValue?_copied imports hcopied.children_eq
          · rfl

theorem baseNameOfValue?_copied (imports : Imports) {width rows : Nat}
    {trees others : List SyntaxTree} (hall : List.Forall₂ (Copied width rows) trees others) :
    baseNameOfValue? imports others = baseNameOfValue? imports trees := by
  cases trees with
  | nil =>
      cases hall
      rfl
  | cons tree rest =>
      cases hall with
      | cons hfirst hrest =>
          rw [baseNameOfValue?, baseNameOfValue?, ← hfirst.role_eq, baseName?_copied imports hfirst,
            baseNameOfValue?_copied imports hrest]

end

theorem baseClasses_copied (imports : Imports) (hcopied : Copied width rows original copy) :
    baseClasses imports copy = baseClasses imports original := by
  rw [baseClasses, baseClasses]
  rcases rel_cases (hcopied.part? .superclasses) with
    ⟨hnone, hnone'⟩ | ⟨list, found, hlist, hfound, hsame⟩
  · rw [hnone, hnone']
  · rw [hlist, hfound]
    exact (filterMap_eq_of_forall₂ hsame.namedChildren
      fun hbase => (baseName?_copied imports hbase).symm).symm

/-! Imports -/

/-- A path that the node names is written over several lines. -/
def BreaksPath (node : SyntaxTree) : Prop :=
  ∃ path ∈ writtenPaths node, '\n' ∈ path.toList

instance (node : SyntaxTree) : Decidable (BreaksPath node) :=
  inferInstanceAs (Decidable (∃ path ∈ writtenPaths node, '\n' ∈ path.toList))

theorem itemPath?_copied (hcopied : Copied width rows original copy)
    (hline : ∀ path, itemPath? original = some path → '\n' ∉ path.toList) :
    itemPath? copy = itemPath? original := by
  unfold itemPath? at hline ⊢
  rw [← hcopied.kind_eq]
  split
  · next hkind =>
      rw [hkind] at hline
      rw [hcopied.text_of_one_line (hline _ rfl)]
  · next hkind =>
      rw [hkind] at hline
      rcases rel_cases (hcopied.part? .name) with
        ⟨hnone, hnone'⟩ | ⟨name, found, hname, hfound, hsame⟩
      · rw [hnone, hnone']
      · rw [hname] at hline
        rw [hname, hfound, Option.map_some, Option.map_some,
          hsame.text_of_one_line (hline _ rfl)]
  · rfl

theorem filterMap_itemPath?_copied {items others : List SyntaxTree}
    (hall : List.Forall₂ (Copied width rows) items others)
    (hline : ∀ path ∈ items.filterMap itemPath?, '\n' ∉ path.toList) :
    others.filterMap itemPath? = items.filterMap itemPath? := by
  induction hall with
  | nil => rfl
  | cons hfirst _ ih =>
      rw [filterMap_itemPath?_cons, List.forall_mem_append] at hline
      rw [filterMap_itemPath?_cons, filterMap_itemPath?_cons, ih hline.2, itemPath?_copied hfirst]
      exact fun path hpath => hline.1 path (by rw [hpath]; exact List.mem_singleton_self path)

theorem not_mem_of_qualify {c : Char} {source name : String}
    (hnone : c ∉ (qualify source name).toList) : c ∉ source.toList ∧ c ∉ name.toList := by
  unfold qualify at hnone
  split at hnone <;> simp_all

theorem writtenPaths_copied (hcopied : Copied width rows original copy)
    (hline : ¬ BreaksPath original) : writtenPaths copy = writtenPaths original := by
  have hlines : ∀ path ∈ writtenPaths original, '\n' ∉ path.toList :=
    fun path hpath hbreak => hline ⟨path, hpath, hbreak⟩
  have hparts : List.Forall₂ (Copied width rows) (original.parts .name) (copy.parts .name) :=
    List.rel_filter (fun _ _ hchild => by simp only [hchild.role_eq]) hcopied.children_eq
  unfold writtenPaths at hlines ⊢
  dsimp only at hlines ⊢
  rw [← hcopied.kind_eq]
  split
  · next hkind =>
      rw [hkind] at hlines
      exact filterMap_itemPath?_copied hparts hlines
  · next hkind =>
      rw [hkind] at hlines
      rcases rel_cases (hcopied.part? .moduleName) with
        ⟨hnone, hnone'⟩ | ⟨source, found, hsource, hfound, hsame⟩
      · rw [hnone, hnone']
      · rw [hsource] at hlines
        rw [hsource, hfound]
        dsimp only at hlines ⊢
        rw [List.forall_mem_map] at hlines
        rw [filterMap_itemPath?_copied hparts fun path hpath =>
          (not_mem_of_qualify (hlines path hpath)).2]
        refine List.map_congr_left fun path hpath => ?_
        rw [hsame.text_of_one_line (not_mem_of_qualify (hlines path hpath)).1]
  · rfl

theorem importTargets_copied (hcopied : Copied width rows original copy)
    (hcopy : copy.Grammatical) (himport : IsImport original) (hline : ¬ BreaksPath original) :
    importTargets copy = importTargets original := by
  have himport' : IsImport copy := by rwa [IsImport, ← hcopied.kind_eq]
  rw [importTargets_eq hcopy himport', importTargets_eq hcopied.grammatical himport,
    writtenPaths_copied hcopied hline]

/-! What is compared of references -/

/-- The class decides about the target of the call. -/
def hidesTarget (node : SyntaxTree) : Bool :=
  node.kind == .call && (receiver? node).any isBoundByClass

/-- A reference as two chunks have it, where the node makes it.  The target is left open if the
class decides about it. -/
def rowOf (node : SyntaxTree) (reference : Reference) :
    Relation × Option String × Nat × Bool :=
  (reference.relation, if hidesTarget node then none else some reference.target, reference.line,
    reference.isMethodCall)

/-- The origin of a file as a whole. -/
def wholeFile : Origin :=
  { id := "", kind := .fileLevel, startLine := 1 }

section

variable (hcopied : Copied width rows original copy) {origin : Origin}
  (horigin : origin.startLine = rows + 1)

include hcopied horigin

/-- References of a node have the lines of the file. -/
theorem map_rowOf_at? (node : SyntaxTree) (relation : Relation) (isMethodCall : Bool)
    (target : String) :
    (at? origin copy relation isMethodCall target).map (rowOf node) =
      (at? wholeFile original relation isMethodCall target).map (rowOf node) := by
  rw [at?, at?]
  split
  · rfl
  · simp only [Option.map_some, rowOf, wholeFile, horigin, hcopied.row_eq]
    congr 4
    omega

theorem map_rowOf_filterMap (node : SyntaxTree) (relation : Relation) (targets : List String) :
    (targets.filterMap (at? origin copy relation false)).map (rowOf node) =
      (targets.filterMap (at? wholeFile original relation false)).map (rowOf node) := by
  rw [List.map_filterMap, List.map_filterMap]
  exact List.filterMap_congr fun target _ =>
    map_rowOf_at? hcopied horigin node relation false target

theorem map_rowOf_ofImport (hcopy : copy.Grammatical) (himport : IsImport original)
    (hline : ¬ BreaksPath original) :
    (ofImport origin copy).map (rowOf original) =
      (ofImport wholeFile original).map (rowOf original) := by
  rw [ofImport, ofImport, importTargets_copied hcopied hcopy himport hline]
  exact map_rowOf_filterMap hcopied horigin original .imports _

section

variable {context other : Context} (hfile : context.file = other.file)

include hfile

theorem map_rowOf_ofBases :
    (ofBases origin context copy).map (rowOf original) =
      (ofBases wholeFile other original).map (rowOf original) := by
  rw [ofBases, ofBases, baseClasses_copied _ hcopied, hfile]
  exact map_rowOf_filterMap hcopied horigin original .inherits _

theorem map_rowOf_ofRaise :
    (ofRaise origin context copy).map (rowOf original) =
      (ofRaise wholeFile other original).map (rowOf original) := by
  have htarget : (copy.firstNamed?.bind fun raised =>
      if raised.kind = .call then (raised.part? .function).bind (exceptionName? context)
      else exceptionName? context raised) =
        original.firstNamed?.bind fun raised =>
          if raised.kind = .call then (raised.part? .function).bind (exceptionName? other)
          else exceptionName? other raised := by
    refine (bind_eq_of_rel hcopied.firstNamed? fun hraised => ?_).symm
    rw [← hraised.kind_eq, exceptionName?_copied hfile hraised]
    split
    · exact bind_eq_of_rel (hraised.part? .function)
        fun hfunction => (exceptionName?_copied hfile hfunction).symm
    · rfl
  simp only [ofRaise, Option.bind_eq_bind, htarget, ← Option.toList_map, Option.map_bind]
  congr 2
  funext target
  exact map_rowOf_at? hcopied horigin original .raises false target

theorem map_rowOf_ofExcept :
    (ofExcept origin context copy).map (rowOf original) =
      (ofExcept wholeFile other original).map (rowOf original) := by
  rw [ofExcept, ofExcept]
  have hkinds : ∀ {one two}, Copied width rows one two →
      (one.kind != .block && one.kind != .comment) =
        (two.kind != .block && two.kind != .comment) :=
    fun hchild => by rw [hchild.kind_eq]
  rcases rel_cases (rel_find? hcopied.namedChildren hkinds) with
    ⟨hnone, hnone'⟩ | ⟨caught, found, hcaught, hfound, -, hsame⟩
  · rw [hnone, hnone']
  · rw [hcaught, hfound]
    dsimp only
    rw [exceptionNames_copied hfile hsame]
    exact map_rowOf_filterMap hcopied horigin original .catches _

theorem map_rowOf_ofCall
    (htype : ∀ name, isAttributeKey name = false → context.typeOf? name = other.typeOf? name)
    (hkind : original.kind = .call) (current : Option String) :
    (ofCall origin context current copy).map (rowOf original) =
      (ofCall wholeFile other current original).map (rowOf original) := by
  cases hbound : (receiver? original).any isBoundByClass with
  | false =>
      rw [ofCall, ofCall, callTarget?_copied hfile htype hcopied hbound]
      split
      · rw [← Option.toList_map, ← Option.toList_map, map_rowOf_at? hcopied horigin]
      · rfl
  | true =>
      -- both sides make one reference, and its target is not compared
      have hhidden : hidesTarget original = true := by simp [hidesTarget, hkind, hbound]
      have hself : Copied 0 0 original original := ⟨hcopied.grammatical, rfl⟩
      obtain ⟨target, htarget, hne⟩ :=
        exists_target_of_isBoundByClass hcopied hbound context current
      obtain ⟨target', htarget', hne'⟩ :=
        exists_target_of_isBoundByClass hself hbound other current
      simp only [ofCall, htarget, htarget', at?, hne, hne', if_false, Option.toList_some,
        List.map_cons, List.map_nil, rowOf, hhidden, if_true, wholeFile, horigin, hcopied.row_eq]
      congr 4
      omega

end

/-- A node other than a function makes the same references in a copy, in what is compared. -/
theorem map_rowOf_madeBy {state other : Walk} (hfile : state.context.file = other.context.file)
    (htype : original.kind = .call → ∀ name, isAttributeKey name = false →
      state.context.typeOf? name = other.context.typeOf? name)
    (hcopy : copy.Grammatical) (hline : ¬ BreaksPath original)
    (hfunction : original.kind ≠ .functionDefinition) (current : Option String) :
    (madeBy origin current state copy).map (rowOf original) =
      (madeBy wholeFile current other original).map (rowOf original) := by
  rw [madeBy, madeBy, ← hcopied.kind_eq]
  split
  · exact map_rowOf_ofBases hcopied horigin hfile
  · next hkind => exact absurd hkind hfunction
  · rw [ofNode, ofNode, ← hcopied.kind_eq]
    split
    · next hkind => exact map_rowOf_ofCall hcopied horigin hfile (htype hkind) hkind current
    · exact map_rowOf_ofRaise hcopied horigin hfile
    · exact map_rowOf_ofExcept hcopied horigin hfile
    · exact map_rowOf_ofExcept hcopied horigin hfile
    · next hkind => exact map_rowOf_ofImport hcopied horigin hcopy (.inl hkind) hline
    · next hkind => exact map_rowOf_ofImport hcopied horigin hcopy (.inr hkind) hline
    · rfl

end

end

end Reference

end CodeGraph
