import CodeGraph.Chunk.Split
import CodeGraph.Proofs.Reference.Arrival

namespace CodeGraph

open Syntax Names

/-! The paths that an import statement writes down, and those that it refers to.  A plain import
also binds the root of a dotted path; the rule that keeps these roots out of the references leaves
out every path with another one below it. -/

namespace Names

/-- The path that one item of an import statement names. -/
def itemPath? (item : SyntaxTree) : Option String :=
  match item.kind with
  | .dottedName => some item.text
  | .aliasedImport => (item.part? .name).map SyntaxTree.text
  | _ => none

/-- The paths that an import statement names, in the order it names them; what is imported from a
module is qualified with it. -/
def writtenPaths (statement : SyntaxTree) : List String :=
  let items := (statement.parts .name).filterMap itemPath?
  match statement.kind with
  | .importStatement => items
  | .importFromStatement =>
      match statement.part? .moduleName with
      | some source => items.map (qualify source.text)
      | none => []
  | _ => []

/-- The paths that the bindings of an import stand for. -/
def boundPaths (bindings : List (String × Imported)) : List String :=
  bindings.map fun binding => binding.2.qualifiedName

theorem boundPaths_flatMap_cons (bindings : SyntaxTree → List (String × Imported))
    (item : SyntaxTree) (rest : List SyntaxTree) :
    boundPaths ((item :: rest).flatMap bindings) =
      boundPaths (bindings item) ++ boundPaths (rest.flatMap bindings) := by
  rw [List.flatMap_cons, boundPaths, List.map_append]
  rfl

theorem filterMap_itemPath?_cons (item : SyntaxTree) (rest : List SyntaxTree) :
    (item :: rest).filterMap itemPath? = (itemPath? item).toList ++ rest.filterMap itemPath? := by
  rw [List.filterMap_cons]
  cases itemPath? item <;> rfl

theorem ne_empty_of_lastSegment {name : String} (hname : Text.lastSegment name ≠ "") :
    name ≠ "" := by
  rintro rfl
  exact hname rfl

theorem aliasOf?_of_grammatical {item : SyntaxTree} (hitem : item.Grammatical)
    (hkind : item.kind = .aliasedImport) :
    ∃ path binding, aliasOf? item = some (path, binding) ∧ itemPath? item = some path ∧
      path ≠ "" ∧ binding ≠ "" := by
  have hformed := hitem.formed
  rw [SyntaxTree.Formed, hkind] at hformed
  obtain ⟨⟨name, hname, -⟩, binding, hbinding, hne⟩ := hformed
  have halias : aliasOf? item = some (name.text, binding.text) := by
    simp [aliasOf?, hname, hbinding]
  refine ⟨name.text, binding.text, halias, ?_, ?_, hne⟩
  · rw [itemPath?, hkind]
    simp [hname]
  · exact ne_empty_of_lastSegment (lastSegment_of_aliasOf? hitem hkind halias)

theorem ne_empty_of_itemPath? {item : SyntaxTree} (hitem : item.Grammatical) {path : String}
    (hpath : itemPath? item = some path) : path ≠ "" := by
  unfold itemPath? at hpath
  split at hpath
  · next hkind =>
      cases hpath
      exact ne_empty_of_lastSegment (lastSegment_of_dottedName hitem hkind)
  · next hkind =>
      obtain ⟨other, binding, -, hother, hne, -⟩ := aliasOf?_of_grammatical hitem hkind
      rw [itemPath?, hkind] at hother
      cases hpath.symm.trans hother
      exact hne
  · cases hpath

theorem qualify_ne_empty (source name : String) : qualify source name ≠ "" := by
  unfold qualify
  split
  · next hlast =>
      intro hempty
      obtain ⟨hsource, -⟩ := String.append_eq_empty_iff.mp hempty
      rw [hsource] at hlast
      cases hlast
  · simp

theorem ne_empty_of_mem_writtenPaths {statement : SyntaxTree}
    (hstatement : statement.Grammatical) {path : String} (hpath : path ∈ writtenPaths statement) :
    path ≠ "" := by
  unfold writtenPaths at hpath
  dsimp only at hpath
  split at hpath
  · obtain ⟨item, hitem, hpath⟩ := List.mem_filterMap.mp hpath
    exact ne_empty_of_itemPath? (hstatement.child (List.mem_of_mem_filter hitem)) hpath
  · split at hpath
    · obtain ⟨name, -, rfl⟩ := List.mem_map.mp hpath
      exact qualify_ne_empty _ name
    · cases hpath
  · cases hpath

/-! From a module, an item binds just what it names. -/

theorem boundPaths_fromBindings {item : SyntaxTree} (hitem : item.Grammatical) (source : String) :
    boundPaths (fromBindings source item) = ((itemPath? item).map (qualify source)).toList := by
  by_cases hdotted : item.kind = .dottedName
  · have hne := ne_empty_of_lastSegment (lastSegment_of_dottedName hitem hdotted)
    simp [boundPaths, fromBindings, itemPath?, hdotted, hne]
  · by_cases haliased : item.kind = .aliasedImport
    · obtain ⟨path, binding, halias, hpath, hne, hbinding⟩ :=
        aliasOf?_of_grammatical hitem haliased
      simp [boundPaths, fromBindings, hpath, haliased, halias, hne, hbinding]
    · simp [boundPaths, fromBindings, itemPath?]

end Names

namespace Reference

/-! The root of a dotted path -/

theorem isBelow_iff {path other : String} :
    isBelow path other = true ↔ ∃ rest, other = path ++ "." ++ rest := by
  rw [isBelow, List.isPrefixOf_iff_prefix]
  constructor
  · rintro ⟨rest, hrest⟩
    exact ⟨String.ofList rest, String.toList_injective (by simp [← hrest])⟩
  · rintro ⟨rest, rfl⟩
    exact ⟨rest.toList, by simp⟩

/-- A path without dots lies below no other. -/
theorem isBelow_of_dotless {path : String} (hpath : '.' ∉ path.toList) (other : String) :
    isBelow other path = false := by
  rw [Bool.eq_false_iff]
  intro hbelow
  obtain ⟨rest, rfl⟩ := isBelow_iff.mp hbelow
  simp at hpath

theorem dotless_beforeFirst (text : List Char) : '.' ∉ Text.beforeFirst '.' text := by
  intro hmem
  have htaken := List.mem_takeWhile_imp hmem
  simp at htaken

/-- A path lies below its first part, unless that is all of it. -/
theorem isBelow_beforeFirst {path : String}
    (hroot : String.ofList (Text.beforeFirst '.' path.toList) ≠ path) :
    isBelow (String.ofList (Text.beforeFirst '.' path.toList)) path = true := by
  have hsplit := List.takeWhile_append_dropWhile (p := (· ≠ '.')) (l := path.toList)
  cases hrest : path.toList.dropWhile (· ≠ '.') with
  | nil =>
      rw [hrest, List.append_nil] at hsplit
      exact absurd (String.toList_injective (by rw [String.toList_ofList]; exact hsplit)) hroot
  | cons dot rest =>
      have hdot : dot = '.' := by
        have hhead := List.head?_dropWhile_not (· ≠ '.') path.toList
        rw [hrest] at hhead
        simpa using hhead
      rw [hrest, hdot] at hsplit
      refine isBelow_iff.mpr ⟨String.ofList rest, String.toList_injective ?_⟩
      rw [String.toList_append, String.toList_append, String.toList_ofList, String.toList_ofList]
      exact hsplit.symm.trans (by simp [Text.beforeFirst])

/-- What a plain import binds besides the path it names is the root of that path. -/
theorem boundPaths_plainBindings {item : SyntaxTree} (hitem : item.Grammatical) :
    ∃ roots, boundPaths (plainBindings item) = roots ++ (itemPath? item).toList ∧
      ∀ root ∈ roots, '.' ∉ root.toList ∧
        ∃ path, itemPath? item = some path ∧ isBelow root path = true := by
  by_cases hdotted : item.kind = .dottedName
  · have hpath : itemPath? item = some item.text := by simp [itemPath?, hdotted]
    by_cases hroot : String.ofList (Text.beforeFirst '.' item.text.toList) = item.text
    · exact ⟨[], by simp [boundPaths, plainBindings, hdotted, hpath, hroot], nofun⟩
    · refine ⟨[String.ofList (Text.beforeFirst '.' item.text.toList)],
        by simp [boundPaths, plainBindings, hdotted, hpath, hroot], ?_⟩
      intro root hmem
      cases List.mem_singleton.mp hmem
      exact ⟨by simpa using dotless_beforeFirst item.text.toList, item.text, hpath,
        isBelow_beforeFirst hroot⟩
  · refine ⟨[], ?_, nofun⟩
    by_cases haliased : item.kind = .aliasedImport
    · obtain ⟨path, binding, halias, hpath, -⟩ := aliasOf?_of_grammatical hitem haliased
      simp [boundPaths, plainBindings, haliased, halias, hpath]
    · simp [boundPaths, plainBindings, itemPath?]

section Plain

variable {items : List SyntaxTree} (hitems : ∀ item ∈ items, item.Grammatical)

include hitems

/-- The roots lie below nothing, so that they leave no path out. -/
theorem any_boundPaths_plainBindings (path : String) :
    (boundPaths (items.flatMap plainBindings)).any (isBelow path) =
      (items.filterMap itemPath?).any (isBelow path) := by
  induction items with
  | nil => rfl
  | cons item rest ih =>
      obtain ⟨hitem, hrest⟩ := List.forall_mem_cons.mp hitems
      obtain ⟨roots, hbound, hroots⟩ := boundPaths_plainBindings hitem
      have hnone : roots.any (isBelow path) = false :=
        List.any_eq_false.mpr fun root hmem => by
          rw [isBelow_of_dotless (hroots root hmem).1]
          exact Bool.false_ne_true
      rw [boundPaths_flatMap_cons, filterMap_itemPath?_cons, hbound, List.any_append,
        List.any_append, List.any_append, hnone, Bool.false_or, ih hrest]

/-- The roots are left out, each for the path that it is the root of. -/
theorem filter_boundPaths_plainBindings {keep : String → Bool}
    (hkeep : ∀ path ∈ items.filterMap itemPath?, ∀ root, isBelow root path = true →
      keep root = false) :
    (boundPaths (items.flatMap plainBindings)).filter keep =
      (items.filterMap itemPath?).filter keep := by
  induction items with
  | nil => rfl
  | cons item rest ih =>
      obtain ⟨hitem, hrest⟩ := List.forall_mem_cons.mp hitems
      rw [filterMap_itemPath?_cons, List.forall_mem_append] at hkeep
      obtain ⟨roots, hbound, hroots⟩ := boundPaths_plainBindings hitem
      have hnone : roots.filter keep = [] := by
        rw [List.filter_eq_nil_iff]
        intro root hmem
        obtain ⟨-, path, hpath, hbelow⟩ := hroots root hmem
        rw [hkeep.1 path (by rw [hpath]; exact List.mem_singleton_self path) root hbelow]
        exact Bool.false_ne_true
      rw [boundPaths_flatMap_cons, filterMap_itemPath?_cons, hbound, List.filter_append,
        List.filter_append, List.filter_append, hnone, List.nil_append, ih hrest hkeep.2]

end Plain

theorem boundPaths_of_importFrom {statement : SyntaxTree} (hstatement : statement.Grammatical)
    (hkind : statement.kind = .importFromStatement) :
    boundPaths (statementBindings statement) = writtenPaths statement := by
  have hbound : ∀ (source : String) (items : List SyntaxTree),
      (∀ item ∈ items, item.Grammatical) →
        boundPaths (items.flatMap (fromBindings source)) =
          (items.filterMap itemPath?).map (qualify source) := by
    intro source items hitems
    induction items with
    | nil => rfl
    | cons item rest ih =>
        obtain ⟨hitem, hrest⟩ := List.forall_mem_cons.mp hitems
        rw [boundPaths_flatMap_cons, filterMap_itemPath?_cons, List.map_append,
          boundPaths_fromBindings hitem, ih hrest, Option.toList_map]
  rw [statementBindings, writtenPaths, hkind]
  cases statement.part? .moduleName with
  | none => rfl
  | some source =>
      exact hbound source.text _ fun item hmem => hstatement.child (List.mem_of_mem_filter hmem)

/-! References -/

def IsImport (statement : SyntaxTree) : Prop :=
  statement.kind = .importStatement ∨ statement.kind = .importFromStatement

/-- An import statement refers to the paths it names, without those that lie above another. -/
theorem importTargets_eq {statement : SyntaxTree} (hstatement : statement.Grammatical)
    (himport : IsImport statement) :
    importTargets statement =
      ((writtenPaths statement).filter fun path =>
        !(writtenPaths statement).any (isBelow path)).eraseDups := by
  refine congrArg List.eraseDups ?_
  change (boundPaths (statementBindings statement)).filter
    (fun path => !(boundPaths (statementBindings statement)).any (isBelow path)) = _
  rcases himport with hkind | hkind
  · have hitems : ∀ item ∈ statement.parts .name, item.Grammatical := fun item hmem =>
      hstatement.child (List.mem_of_mem_filter hmem)
    have hwritten : writtenPaths statement = (statement.parts .name).filterMap itemPath? := by
      rw [writtenPaths, hkind]
    rw [statementBindings, hkind, hwritten]
    simp only [any_boundPaths_plainBindings hitems]
    refine filter_boundPaths_plainBindings hitems fun path hpath root hbelow => ?_
    rw [Bool.not_eq_false']
    exact List.any_eq_true.mpr ⟨path, hpath, hbelow⟩
  · rw [boundPaths_of_importFrom hstatement hkind]

/-- The reference of an import statement to a path. -/
def importReference (chunk : Chunk) (statement : SyntaxTree) (path : String) : Reference :=
  { source := chunk.id, target := path, relation := .imports,
    line := chunk.startLine + statement.start.row, isMethodCall := false }

theorem ofImport_eq_map {statement : SyntaxTree} (hstatement : statement.Grammatical)
    (himport : IsImport statement) (chunk : Chunk) :
    ofImport (originOf chunk) statement =
      (importTargets statement).map (importReference chunk statement) := by
  rw [ofImport, ← List.filterMap_eq_map]
  refine List.filterMap_congr fun path hmem => ?_
  rw [importTargets_eq hstatement himport] at hmem
  exact if_neg (ne_empty_of_mem_writtenPaths hstatement
    (List.mem_of_mem_filter (List.mem_eraseDups.mp hmem)))

theorem madeIn_of_import {chunk : Chunk} (file : FileContext) {root statement : SyntaxTree}
    {site : List Nat} (hsite : root.at? site = some statement) (himport : IsImport statement)
    (hreached : IsReached chunk root site) :
    madeIn chunk file root site = ofImport (originOf chunk) statement := by
  have hdefinition : statement.kind.isDefinition = false := by
    rcases himport with hkind | hkind <;> rw [hkind] <;> rfl
  rw [madeIn, referencesAt_eq_madeBy _ _ _ _ hsite hreached.isPassedOver_eq,
    madeBy_of_not_isDefinition hdefinition, ofNode]
  rcases himport with hkind | hkind <;> rw [hkind]

/-- A filter that loses no element keeps all. -/
theorem eraseDups_filter_eq_iff {paths : List String} {keep : String → Bool} :
    (paths.filter keep).eraseDups = paths.eraseDups ↔ ∀ path ∈ paths, keep path = true := by
  constructor
  · intro hsame path hpath
    have hmem : path ∈ (paths.filter keep).eraseDups := by
      rw [hsame]
      exact List.mem_eraseDups.mpr hpath
    exact (List.mem_filter.mp (List.mem_eraseDups.mp hmem)).2
  · intro hkeep
    rw [List.filter_eq_self.mpr hkeep]

/-- An import statement makes one reference for each path it names that has no other one below it,
in the order they are first named, and none to the root of a path that it does not name.  So it
refers to every path it names exactly where none of them lies below another. -/
theorem import_refers_to_deepest_paths {chunk : Chunk} {root statement : SyntaxTree}
    (hroot : root.Grammatical) (file : FileContext) {site : List Nat}
    (hsite : root.at? site = some statement) (himport : IsImport statement)
    (hreached : IsReached chunk root site) :
    let written := writtenPaths statement
    ofTree chunk file root = root.addresses.flatMap (madeIn chunk file root) ∧
      madeIn chunk file root site =
        ((written.filter fun path => !written.any (isBelow path)).eraseDups).map
          (importReference chunk statement) ∧
      (madeIn chunk file root site = written.eraseDups.map (importReference chunk statement) ↔
        ∀ path ∈ written, ∀ rest, path ++ "." ++ rest ∉ written) := by
  intro written
  have hstatement := hroot.of_at? hsite
  have hmade : madeIn chunk file root site =
      ((written.filter fun path => !written.any (isBelow path)).eraseDups).map
        (importReference chunk statement) := by
    rw [madeIn_of_import file hsite himport hreached, ofImport_eq_map hstatement himport,
      importTargets_eq hstatement himport]
  have hinjective : Function.Injective (importReference chunk statement) := fun path other hsame =>
    congrArg Reference.target hsame
  refine ⟨ofTree_eq_flatMap chunk file root, hmade, ?_⟩
  rw [hmade, hinjective.list_map.eq_iff, eraseDups_filter_eq_iff]
  refine forall₂_congr fun path _ => ?_
  rw [Bool.not_eq_true', List.any_eq_false]
  constructor
  · intro hnone rest hmem
    exact hnone _ hmem (isBelow_iff.mpr ⟨rest, rfl⟩)
  · intro hnone other hmem hbelow
    obtain ⟨rest, rfl⟩ := isBelow_iff.mp hbelow
    exact hnone rest hmem

/-- A dotted path that is named twice, with another one under an alias between. -/
theorem import_refers_to_dotted_path_once :
    let source := "import a.b, c as d, a.b"
    ∃ chunks chunk root statement, Chunk.ofSource? "m.py" "m.py" source = some chunks ∧
      chunks.head? = some chunk ∧ parse? chunk.content = some root ∧
      root.at? [0] = some statement ∧
      writtenPaths statement = ["a.b", "c", "a.b"] ∧
      madeIn chunk (.ofText source) root [0] =
        ["a.b", "c"].map (importReference chunk statement) := by
  intro source
  have hshape : (do
      let chunks ← Chunk.ofSource? "m.py" "m.py" source
      let chunk ← chunks.head?
      let root ← parse? chunk.content
      let statement ← root.at? [0]
      pure (statement.kind, root.isWithin .decorator [0], writtenPaths statement)) =
      some (.importStatement, false, ["a.b", "c", "a.b"]) := by
    decide +kernel
  simp only [Option.bind_eq_bind, Option.bind_eq_some_iff, Option.pure_def, Option.some.injEq,
    Prod.mk.injEq] at hshape
  obtain ⟨chunks, hchunks, chunk, hchunk, root, hroot, statement, hsite, hkind, hdecorator,
    hwritten⟩ := hshape
  have hreached : IsReached chunk root [0] := by
    refine ⟨hdecorator, fun _ index rest other hsame hother => ?_⟩
    cases hsame
    rw [SyntaxTree.at?_cons, hother] at hsite
    cases hsite
    rw [hkind]
    decide
  obtain ⟨-, hmade, -⟩ :=
    import_refers_to_deepest_paths (grammatical_of_parse hroot) (.ofText source) hsite (.inl hkind)
      hreached
  rw [hwritten] at hmade
  exact ⟨chunks, chunk, root, statement, hchunks, hchunk, hroot, hsite, hwritten, hmade⟩

/-- A package that is named beside one of its modules is left out. -/
theorem import_leaves_out_named_package :
    let source := "import os, os.path"
    ∃ chunks chunk root statement, Chunk.ofSource? "m.py" "m.py" source = some chunks ∧
      chunks.head? = some chunk ∧ parse? chunk.content = some root ∧
      root.at? [0] = some statement ∧
      writtenPaths statement = ["os", "os.path"] ∧
      (ofTree chunk (.ofText source) root).map Reference.target = ["os.path"] := by
  intro source
  have hshape : (do
      let chunks ← Chunk.ofSource? "m.py" "m.py" source
      let chunk ← chunks.head?
      let root ← parse? chunk.content
      let statement ← root.at? [0]
      pure (writtenPaths statement, (ofTree chunk (.ofText source) root).map Reference.target)) =
      some (["os", "os.path"], ["os.path"]) := by
    decide +kernel
  simp only [Option.bind_eq_bind, Option.bind_eq_some_iff, Option.pure_def, Option.some.injEq,
    Prod.mk.injEq] at hshape
  obtain ⟨chunks, hchunks, chunk, hchunk, root, hroot, statement, hsite, hwritten, hmade⟩ := hshape
  exact ⟨chunks, chunk, root, statement, hchunks, hchunk, hroot, hsite, hwritten, hmade⟩

end Reference

end CodeGraph
