import CodeGraph.Proofs.Index.Places

namespace CodeGraph

open Syntax

/-! The source files of a project.  Their chunks follow each other as the files do in the order of
their places. -/

/-- A name with one of the extensions of source files, and something in front of it. -/
def IsSourceName (name : String) : Prop :=
  ∃ stem extension, stem ≠ "" ∧ (extension = "py" ∨ extension = "pyi") ∧
    name = stem ++ "." ++ extension

theorem Language.isSome_ofExtension?_iff {extension : String} :
    (Language.ofExtension? extension).isSome = true ↔ extension = "py" ∨ extension = "pyi" := by
  simp [ofExtension?, extensions]

theorem isSourceName_iff {name : List Char} :
    IsSourceName (String.ofList name) ↔
      ∃ extension, (Text.Path.splitExtension name).2 = some extension ∧
        (Language.ofExtension? (String.ofList extension)).isSome = true := by
  simp only [Text.Path.splitExtension_eq_some_iff, Language.isSome_ofExtension?_iff]
  constructor
  · rintro ⟨stem, extension, hstem, hextension, hname⟩
    have hchars := congrArg String.toList hname
    rw [String.toList_ofList, String.toList_append, String.toList_append, List.append_assoc]
      at hchars
    refine ⟨extension.toList, ⟨stem.toList, mt String.toList_eq_nil_iff.mp hstem, hchars, ?_⟩, ?_⟩
    · rcases hextension with rfl | rfl <;> decide
    · rwa [String.ofList_toList]
  · rintro ⟨extension, ⟨front, hfront, rfl, -⟩, hextension⟩
    refine ⟨String.ofList front, String.ofList extension, ?_, hextension, ?_⟩
    · simpa using hfront
    · apply String.toList_inj.mp
      simp

theorem exists_extension?_iff {path : String} :
    (∃ extension, Text.Path.extension? path = some extension ∧
      (Language.ofExtension? extension).isSome = true) ↔
      ∃ name, IsSourceName name ∧ (Text.Path.fileName? path).map String.ofList = some name := by
  cases hname : Text.Path.fileName? path with
  | none => simp [Text.Path.extension?, hname]
  | some name => simp [Text.Path.extension?, hname, isSourceName_iff]

theorem fromUTF8?_eq_some_iff {bytes : ByteArray} {text : String} :
    String.fromUTF8? bytes = some text ↔ bytes = text.toUTF8 := by
  constructor
  · intro hsome
    rw [String.fromUTF8?] at hsome
    split at hsome
    · cases hsome
      rfl
    · cases hsome
  · rintro rfl
    exact Files.fromUTF8?_toUTF8 text

theorem FileTree.toOption_text_eq_some_iff {tree : FileTree} {text : String} :
    tree.text.toOption = some text ↔ tree = .ofText text := by
  cases tree with
  | directory entries => simp [FileTree.text, ofText, Except.toOption]
  | closed entry => simp [FileTree.text, ofText, Except.toOption]
  | file bytes =>
      rw [FileTree.text, ofText, FileTree.file.injEq, ← fromUTF8?_eq_some_iff]
      cases String.fromUTF8? bytes <;> simp [Except.toOption]

theorem Text.forwardSlashes_forwardSlashes (path : String) :
    forwardSlashes (forwardSlashes path) = forwardSlashes path := by
  have honce : ∀ c : Char, (if (if c = '\\' then '/' else c) = '\\' then '/'
      else if c = '\\' then '/' else c) = if c = '\\' then '/' else c := by
    intro c
    by_cases hback : c = '\\' <;> simp [hback]
  simp [forwardSlashes, replaceChar, Function.comp_def, honce]

namespace Config

/-- The path of what is at a place below the project's directory. -/
def pathOf (config : Config) (place : List String) : String :=
  place.foldl Text.Path.join config.repoPath

/-- The chunks of the file at a place, with the tree of its text. -/
def chunksOfTree (config : Config) (place : List String) (text : String) (root : SyntaxTree) :
    List Chunk :=
  let path := config.pathOf place
  let shown := (Text.Path.stripDirectory? config.repoPath path).getD path
  Chunk.ofTree (Text.forwardSlashes shown) path text root

/-- A source file of the project: a regular file that can be read as a text.  Links, devices and
what may not be read are none. -/
structure IsSource (config : Config) (files : Files) (place : List String) (text : String) :
    Prop where
  found : ∃ tree, files.lookup config.repoPath = .ok tree ∧
    tree.at? place = some (.ofText text)
  named : ∃ name, IsSourceName name ∧
    place.getLast?.or ((Text.Path.fileName? config.repoPath).map String.ofList) = some name
  small : text.utf8ByteSize ≤ config.maxFileSize
  allowed : ∀ name ∈ rootName config.repoPath :: place,
    name ∉ defaultExcludes ∧ name ∉ config.excludes
  visible : ∀ name ∈ place.dropLast, name.toList.head? ≠ some '.'

/-- The place, the text and the tree of a file, if it is a source file and can be parsed. -/
def parsed? (config : Config) (found : List String × FileTree) :
    Option (List String × String × SyntaxTree) := do
  let size ← found.2.size?
  let extension ← Text.Path.extension? (config.pathOf found.1)
  let _ ← Language.ofExtension? extension
  if size > config.maxFileSize then none
  else
    let text ← found.2.text.toOption
    let root ← parse? text
    some (found.1, text, root)

theorem chunksOfFile?_eq (config : Config) (found : List String × FileTree) :
    chunksOfFile? config (config.pathOf found.1) found.2 =
      (config.parsed? found).map fun source =>
        config.chunksOfTree source.1 source.2.1 source.2.2 := by
  simp only [chunksOfFile?, parsed?, Option.bind_eq_bind, Option.map_bind, Function.comp_def]
  refine congrArg _ (funext fun size => congrArg _ (funext fun extension =>
    congrArg _ (funext fun language => ?_)))
  split
  · rfl
  · rw [Option.map_bind]
    refine congrArg _ (funext fun text => ?_)
    rw [Chunk.ofSource?, Text.forwardSlashes_forwardSlashes, Function.comp_apply]
    cases parse? text <;> rfl

theorem flatMap_filterMap_of_eq {α β γ : Type} {values : List α} {choose? : α → Option β}
    {first : α → List γ} {second : β → List γ}
    (hsame : ∀ value, first value = ((choose? value).map second).getD []) :
    values.flatMap first = (values.filterMap choose?).flatMap second := by
  induction values with
  | nil => rfl
  | cons value rest ih =>
      rw [List.flatMap_cons, List.filterMap_cons, hsame, ih]
      cases choose? value <;> rfl

theorem fileName?_pathOf {config : Config} {place : List String}
    (hentries : ∀ name ∈ place, Files.IsEntry name) :
    Text.Path.fileName? (config.pathOf place) =
      (place.getLast?.map String.toList).or (Text.Path.fileName? config.repoPath) := by
  rcases List.eq_nil_or_concat place with rfl | ⟨front, last, rfl⟩
  · rfl
  · rw [List.concat_eq_append] at hentries ⊢
    rw [pathOf, List.foldl_append, List.foldl_cons, List.foldl_nil,
      Text.Path.fileName?_join _ (hentries last (by simp))]
    simp

theorem parsed?_eq_some_iff {config : Config} {place other : List String} {tree : FileTree}
    {text : String} {root : SyntaxTree} (hentries : ∀ name ∈ place, Files.IsEntry name) :
    config.parsed? (place, tree) = some (other, text, root) ↔
      (place = other ∧ tree = .ofText text ∧ text.utf8ByteSize ≤ config.maxFileSize ∧
        ∃ name, IsSourceName name ∧
          place.getLast?.or ((Text.Path.fileName? config.repoPath).map String.ofList) =
            some name) ∧ parse? text = some root := by
  have hname : (Text.Path.fileName? (config.pathOf place)).map String.ofList =
      place.getLast?.or ((Text.Path.fileName? config.repoPath).map String.ofList) := by
    have hback : String.ofList ∘ String.toList = id := funext fun _ => String.ofList_toList
    rw [fileName?_pathOf hentries, Option.map_or, Option.map_map, hback, Option.map_id_apply]
  rw [← hname, ← exists_extension?_iff, parsed?]
  simp only [Option.bind_eq_bind, Option.bind_eq_some_iff, Option.ite_none_left_eq_some, not_lt,
    Option.some.injEq, Prod.mk.injEq, FileTree.toOption_text_eq_some_iff]
  constructor
  · rintro ⟨size, hsize, extension, hextension, language, hlanguage, hsmall, found, rfl, tree,
      hparse, rfl, rfl, rfl⟩
    cases hsize
    exact ⟨⟨rfl, rfl, hsmall, extension, hextension, by simp [hlanguage]⟩, hparse⟩
  · rintro ⟨⟨rfl, rfl, hsmall, extension, hextension, hlanguage⟩, hparse⟩
    obtain ⟨language, hlanguage⟩ := Option.isSome_iff_exists.mp hlanguage
    exact ⟨_, rfl, extension, hextension, language, hlanguage, hsmall, text, rfl, root, hparse, rfl,
      rfl, rfl⟩

theorem fst_of_parsed? {config : Config} {found : List String × FileTree}
    {source : List String × String × SyntaxTree} (hsource : config.parsed? found = some source) :
    source.1 = found.1 := by
  simp only [parsed?, Option.bind_eq_bind, Option.bind_eq_some_iff, Option.ite_none_left_eq_some,
    Option.some.injEq] at hsource
  obtain ⟨_, -, _, -, _, -, -, _, -, _, -, rfl⟩ := hsource
  rfl

theorem isHidden_eq_false_iff {name : String} :
    isHidden name = false ↔ name.toList.head? ≠ some '.' := by
  rw [isHidden, beq_eq_false_iff_ne]

section Lookup

variable {config : Config} {files : Files} {tree : FileTree}

/-- The sources among what the walk meets. -/
theorem isSource_and_parse_iff (hlookup : files.lookup config.repoPath = .ok tree)
    (hlawful : tree.Lawful)
    (hroot : rootName config.repoPath ∉ defaultExcludes ++ config.excludes) {place : List String}
    {text : String} {root : SyntaxTree} :
    config.IsSource files place text ∧ parse? text = some root ↔
      ∃ found, FileTree.Visits (defaultExcludes ++ config.excludes) tree place found ∧
        config.parsed? (place, found) = some (place, text, root) := by
  constructor
  · rintro ⟨hsource, hparse⟩
    obtain ⟨other, hother, hat⟩ := hsource.found
    rw [hlookup] at hother
    cases hother
    refine ⟨.ofText text, ⟨hat, rfl, ?_, ?_⟩, ?_⟩
    · intro name hname
      rw [List.mem_append, not_or]
      exact hsource.allowed name (List.mem_cons_of_mem _ hname)
    · exact fun name hname => isHidden_eq_false_iff.mpr (hsource.visible name hname)
    · exact (parsed?_eq_some_iff (hlawful.of_at? hat).2).mpr
        ⟨⟨rfl, rfl, hsource.small, hsource.named⟩, hparse⟩
  · rintro ⟨found, hvisits, hsource⟩
    obtain ⟨⟨-, rfl, hsmall, hnamed⟩, hparse⟩ :=
      (parsed?_eq_some_iff (hlawful.of_at? hvisits.at_place).2).mp hsource
    refine ⟨⟨⟨tree, hlookup, hvisits.at_place⟩, hnamed, hsmall, ?_, ?_⟩, hparse⟩
    · intro name hname
      rw [← not_or, ← List.mem_append]
      rcases List.mem_cons.mp hname with rfl | hbelow
      · exact hroot
      · exact hvisits.allowed name hbelow
    · exact fun name hname => isHidden_eq_false_iff.mp (hvisits.visible name hname)

/-- The source files that are chunked, in the order of the walk. -/
def sourcesIn (config : Config) (tree : FileTree) : List (List String × String × SyntaxTree) :=
  (tree.placesBelow (defaultExcludes ++ config.excludes)).filterMap config.parsed?

theorem mem_sourcesIn (hlookup : files.lookup config.repoPath = .ok tree) (hlawful : tree.Lawful)
    (hroot : rootName config.repoPath ∉ defaultExcludes ++ config.excludes) {place : List String}
    {text : String} {root : SyntaxTree} :
    (place, text, root) ∈ config.sourcesIn tree ↔
      config.IsSource files place text ∧ parse? text = some root := by
  rw [sourcesIn, List.mem_filterMap, isSource_and_parse_iff hlookup hlawful hroot]
  constructor
  · rintro ⟨⟨other, found⟩, hmet, hsource⟩
    obtain rfl : place = other := fst_of_parsed? hsource
    exact ⟨found, hlawful.mem_placesBelow.mp hmet, hsource⟩
  · rintro ⟨found, hvisits, hsource⟩
    exact ⟨(place, found), hlawful.mem_placesBelow.mpr hvisits, hsource⟩

theorem pairwise_sourcesIn (config : Config) (hlawful : tree.Lawful) :
    (config.sourcesIn tree).Pairwise fun first second =>
      FileTree.placeBytes first.1 < FileTree.placeBytes second.1 := by
  refine (hlawful.pairwise_placesBelow _).filterMap _ ?_
  intro found other hless source hsource second hsecond
  rwa [fst_of_parsed? hsource, fst_of_parsed? hsecond]

theorem flatMap_chunksOfFile? (config : Config) (hlawful : tree.Lawful) :
    ((tree.filesBelow (defaultExcludes ++ config.excludes) config.repoPath).flatMap fun entry =>
      (chunksOfFile? config entry.1 entry.2).getD []) =
      (config.sourcesIn tree).flatMap fun source =>
        config.chunksOfTree source.1 source.2.1 source.2.2 := by
  rw [hlawful.filesBelow_eq_map, List.flatMap_map]
  exact flatMap_filterMap_of_eq fun found => congrArg (·.getD []) (config.chunksOfFile?_eq found)

end Lookup

end Config

theorem Files.exists_of_lookup {files : Files} {path : String} {tree : FileTree}
    (hlookup : files.lookup path = .ok tree) :
    ∃ place, files.locate path = .ok place ∧ files.root.at? place = some tree := by
  rw [lookup] at hlookup
  cases hlocate : files.locate path with
  | error reason =>
      rw [hlocate] at hlookup
      cases hlookup
  | ok place =>
      simp only [hlocate, bind, Except.bind] at hlookup
      split at hlookup
      · next hat =>
          cases hlookup
          exact ⟨place, rfl, hat⟩
      · cases hlookup

namespace Config

theorem IsSource.readText? {config : Config} {files : Files} {place : List String} {text : String}
    (hlawful : files.root.Lawful) (hsource : config.IsSource files place text) :
    files.readText? (config.pathOf place) = some text := by
  obtain ⟨tree, hlookup, hat⟩ := hsource.found
  obtain ⟨base, hlocate, hbase⟩ := Files.exists_of_lookup hlookup
  cases place with
  | nil =>
      rw [FileTree.at?] at hat
      cases hat
      have hread : files.readText config.repoPath = .ok text := by
        rw [Files.readText, hlookup]
        simp only [FileTree.ofText, FileTree.text, bind, Except.bind, Files.fromUTF8?_toUTF8]
      rw [pathOf, List.foldl_nil, Files.readText?, hread]
  | cons name rest =>
      have hwhole : files.root.at? (base ++ name :: rest) = some (.ofText text) := by
        rw [FileTree.at?_append, hbase, Option.bind_some, hat]
      have hlook : files.root.look base = some .directory := by
        apply FileTree.look_of_look_append (List.cons_ne_nil name rest)
        rw [FileTree.look, hwhole]
        rfl
      have hnames := ((hlawful.of_at? hbase).1.of_at? hat).2
      exact (Files.isAt_of_locate hlocate hlook).readText?_foldl_join (List.cons_ne_nil name rest)
        hnames hwhole

/-- The chunks of a project come from the source files whose texts can be parsed, which are taken
by increasing places. -/
theorem chunks_by_source_files (config : Config) (files : Files) (hlawful : files.root.Lawful) :
    ∃ sources : List (List String × String × SyntaxTree),
      (∀ place text root, (place, text, root) ∈ sources ↔
        config.IsSource files place text ∧ parse? text = some root) ∧
      (sources.Pairwise fun first second =>
        FileTree.placeBytes first.1 < FileTree.placeBytes second.1) ∧
      (∀ source ∈ sources, files.readText? (config.pathOf source.1) = some source.2.1) ∧
      config.chunks files =
        sources.flatMap fun source => config.chunksOfTree source.1 source.2.1 source.2.2 := by
  cases hlookup : files.lookup config.repoPath with
  | error reason =>
      refine ⟨[], ?_, .nil, by simp, ?_⟩
      · intro place text root
        refine iff_of_false List.not_mem_nil ?_
        intro hsource
        obtain ⟨tree, htree, -⟩ := hsource.1.found
        rw [hlookup] at htree
        cases htree
      · rw [chunks, Files.below, hlookup]
        rfl
  | ok tree =>
      obtain ⟨base, -, hbase⟩ := Files.exists_of_lookup hlookup
      have htree : tree.Lawful := (hlawful.of_at? hbase).1
      by_cases hroot : rootName config.repoPath ∈ defaultExcludes ++ config.excludes
      · refine ⟨[], ?_, .nil, by simp, ?_⟩
        · intro place text root
          refine iff_of_false List.not_mem_nil ?_
          intro hsource
          have hallowed := hsource.1.allowed _ List.mem_cons_self
          exact (List.mem_append.mp hroot).elim hallowed.1 hallowed.2
        · rw [chunks, Files.below, hlookup]
          simp only [List.contains_iff_mem.mpr hroot, if_true, List.flatMap_nil]
      · refine ⟨config.sourcesIn tree, ?_, pairwise_sourcesIn config htree, ?_, ?_⟩
        · exact fun place text root => mem_sourcesIn hlookup htree hroot
        · rintro ⟨place, text, root⟩ hsource
          exact ((mem_sourcesIn hlookup htree hroot).mp hsource).1.readText? hlawful
        · rw [chunks, Files.below, hlookup]
          simp only [List.contains_eq_mem, hroot, decide_false, Bool.false_eq_true, if_false]
          exact flatMap_chunksOfFile? config htree

/-- A project with a hidden directory, a file and a directory whose names start alike, a source that
may not be read, a link to one, and one that cannot be parsed. -/
def pairedFiles : Files :=
  { root := .directory
      [("project", .directory
        [(".venv", .directory [("b.py", .ofText "def b():\n    pass\n")]),
          ("a", .directory [("b.py", .ofText "def b():\n    pass\n")]),
          ("a.py", .ofText "def a():\n    pass\n"),
          ("broken.py", .ofText "def ("),
          ("link.py", .closed .link),
          ("locked", .closed .directory),
          ("locked.py", .closed (.file 17)),
          ("notes.txt", .ofText "")])] }

theorem lawful_pairedFiles : pairedFiles.root.Lawful := by
  have hmodule : ∀ text, (FileTree.directory [("b.py", .ofText text)]).Lawful := by
    intro text
    have hname : Files.IsEntry "b.py" := by decide
    exact .directory (by simp) (List.forall_mem_singleton.mpr hname)
      (List.forall_mem_singleton.mpr (.file _))
  refine .directory (by decide) (by decide) (List.forall_mem_singleton.mpr ?_)
  refine .directory (by decide) (by decide) ?_
  simp only [List.forall_mem_cons]
  exact ⟨hmodule _, hmodule _, .file _, .file _, .closed _, .closed _, .closed _, .file _, by simp⟩

def pairedConfig : Config :=
  { repoPath := "project", excludes := ["notes.txt"] }

theorem isSource_pairedFiles :
    pairedConfig.IsSource pairedFiles ["a", "b.py"] "def b():\n    pass\n" where
  found := ⟨_, rfl, rfl⟩
  named := ⟨"b.py", ⟨"b", "py", by decide, .inl rfl, by decide⟩, rfl⟩
  small := by decide
  allowed := by decide
  visible := by decide

/-- The link, the file that may not be read and the one that cannot be parsed are passed over. -/
theorem chunks_by_source_files_paired :
    pairedFiles.root.Lawful ∧ ∃ root, parse? "def b():\n    pass\n" = some root ∧
    ∃ sources : List (List String × String × SyntaxTree),
      (["a", "b.py"], "def b():\n    pass\n", root) ∈ sources ∧
      (∀ source ∈ sources, source.1 ≠ ["link.py"] ∧ source.1 ≠ ["locked.py"] ∧
        source.1 ≠ ["broken.py"]) ∧
      (sources.Pairwise fun first second =>
        FileTree.placeBytes first.1 < FileTree.placeBytes second.1) ∧
      (∀ source ∈ sources,
        pairedFiles.readText? (pairedConfig.pathOf source.1) = some source.2.1) ∧
      pairedConfig.chunks pairedFiles =
        sources.flatMap fun source => pairedConfig.chunksOfTree source.1 source.2.1 source.2.2 := by
  have hparse : (parse? "def b():\n    pass\n").isSome = true := by decide +kernel
  have hbroken : parse? "def (" = none := by decide +kernel
  obtain ⟨root, hroot⟩ := Option.isSome_iff_exists.mp hparse
  obtain ⟨sources, hsources, horder, hread, hchunks⟩ :=
    chunks_by_source_files pairedConfig pairedFiles lawful_pairedFiles
  refine ⟨lawful_pairedFiles, root, hroot, sources, (hsources _ _ _).mpr
    ⟨isSource_pairedFiles, hroot⟩, ?_, horder, hread, hchunks⟩
  rintro ⟨place, text, other⟩ hmem
  obtain ⟨⟨⟨tree, hlookup, hat⟩, -, -, -, -⟩, hother⟩ := (hsources _ _ _).mp hmem
  cases hlookup
  refine ⟨?_, ?_, ?_⟩
  · rintro rfl
    cases hat
  · rintro rfl
    cases hat
  · rintro rfl
    have hsame : FileTree.ofText "def (" = .ofText text := Option.some.inj hat
    have htext := FileTree.toOption_text_eq_some_iff.mpr hsame
    rw [FileTree.toOption_text_eq_some_iff.mpr rfl] at htext
    cases htext
    cases hbroken.symm.trans hother

end Config

end CodeGraph
