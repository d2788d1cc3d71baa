import CodeGraph.Proofs.Community.Numbering
import CodeGraph.Proofs.Files.Writing
import CodeGraph.Proofs.Index.FileOrder
import CodeGraph.Proofs.Index.Report

namespace CodeGraph

/-! What the documents in a directory hold after any runs into it. -/

def graphFile (directory : String) : String :=
  Text.Path.join directory graphFileName

def communityFile (directory : String) : String :=
  Text.Path.join directory communityFileName

theorem isEntry_graphFileName : Files.IsEntry graphFileName where
  plain := show '/' ∉ graphFileName.toList by decide
  ne_empty := by decide
  ne_dot := by decide
  ne_dots := by decide

theorem isEntry_communityFileName : Files.IsEntry communityFileName where
  plain := show '/' ∉ communityFileName.toList by decide
  ne_empty := by decide
  ne_dot := by decide
  ne_dots := by decide

theorem Files.writeText_of_writeJson {files after : Files} {path : String} {document : Json}
    (hwrite : files.writeJson path document = .ok after) :
    files.writeText path document.render = .ok after := by
  rw [writeJson] at hwrite
  cases htext : files.writeText path document.render with
  | error reason =>
      rw [htext] at hwrite
      cases hwrite
  | ok written =>
      rw [htext] at hwrite
      cases hwrite
      rfl

/-! One run -/

namespace IndexResult

/-- The communities are those of chunks of the store. -/
def Fits (result : IndexResult) : Prop :=
  ∀ id ∈ result.communities.map Prod.fst, id ∈ result.store.chunkIds

theorem Agrees.fits {first second : IndexResult} (hagrees : first.Agrees second)
    (hfits : second.Fits) : first.Fits := by
  intro id hmem
  rw [hagrees.2.1] at hmem
  rw [hagrees.1]
  exact hfits id hmem

/-- What a run that succeeds leaves in its directory. -/
structure Saved (result : IndexResult) (withCommunities : Bool) (directory : String)
    (files after : Files) : Prop where
  graph : after.readText? (graphFile directory) = some result.store.toJson.render
  communities : withCommunities = true →
    after.readText? (communityFile directory) = some result.communities.toJson.render
  kept : withCommunities = false → ∀ place, files.IsAt directory place →
    after.readText? (communityFile directory) = files.readText? (communityFile directory)

theorem saved_of_save {result found : IndexResult} {withCommunities : Bool} {directory : String}
    {files after : Files}
    (hsave : result.save withCommunities directory files = (.ok found, after)) :
    found.Saved withCommunities directory files after := by
  unfold save at hsave
  dsimp only at hsave
  split at hsave
  · cases hsave
  · next between hgraph =>
      have hgraph := Files.writeText_of_writeJson hgraph
      have hread := Files.readText?_writeText isEntry_graphFileName hgraph
      split at hsave
      · next hwith =>
          split at hsave
          · cases hsave
          · next last hcommunities =>
              cases hsave
              have hcommunities := Files.writeText_of_writeJson hcommunities
              -- the first document is read through a directory that is there by now
              obtain ⟨place, hat⟩ := Files.exists_isAt_of_readText? isEntry_graphFileName hread
              have hkept := Files.readText?_writeText_of_ne hat isEntry_communityFileName
                isEntry_graphFileName (by decide) (by decide) hcommunities
              exact ⟨hkept.trans hread,
                fun _ => Files.readText?_writeText isEntry_communityFileName hcommunities,
                fun hwithout => nomatch hwith.symm.trans hwithout⟩
      · next hwithout =>
          cases hsave
          refine ⟨hread, fun hwith => absurd hwith hwithout, fun _ place hat => ?_⟩
          exact Files.readText?_writeText_of_ne hat isEntry_graphFileName
            isEntry_communityFileName (by decide) (by decide) hgraph

end IndexResult

theorem Store.mem_chunkIds_of_detectOrNone {store : Store} (hsound : store.Sound)
    (resolution : Float) (seed : Nat) :
    ∀ id ∈ (store.detectOrNone resolution seed).communities.map Prod.fst, id ∈ store.chunkIds := by
  unfold detectOrNone detect
  split
  · next detection hdetect =>
      split at hdetect
      · cases hdetect
      · split at hdetect
        · cases hdetect
          intro id hmem
          cases hmem
        · dsimp only at hdetect
          split at hdetect
          · cases hdetect
            exact fun _ hmem => (canonical_communitiesBy hsound _ _ resolution).keys.mem_iff.mp hmem
          · cases hdetect
  · intro id hmem
    cases hmem

theorem Config.fits_findings (config : Config) (files : Files) :
    (config.findings files).Fits := by
  have hsound := Store.Sound.empty.addExtracted (config.chunks files)
    (Reference.ofChunks files.readText? [] (config.chunks files))
  intro id hmem
  change id ∈ (config.detection _).communities.map Prod.fst at hmem
  unfold detection at hmem
  split at hmem
  · exact Store.mem_chunkIds_of_detectOrNone hsound _ _ id hmem
  · cases hmem

/-- What a successful run into a directory leaves there, and that its communities fit. -/
theorem Config.saved_of_index {config : Config} {directory : String} {files after : Files}
    {result : IndexResult} (houtput : config.outputDir = some directory)
    (hindex : config.index files = (.ok result, after)) :
    result.Saved config.detectsCommunities directory files after ∧ result.Fits := by
  rw [index_eq] at hindex
  have hagrees : result.Agrees (config.findings files) :=
    agrees_of_persist (congrArg Prod.fst hindex)
  rw [persist, houtput] at hindex
  exact ⟨IndexResult.saved_of_save hindex, hagrees.fits (config.fits_findings files)⟩

/-! Run after run -/

/-- Successful runs into one directory, the last of them first.  Between them anything may change
but the two documents. -/
inductive Runs (directory : String) (start : Files) :
    List (Config × IndexResult) → Files → Prop
  | start : Runs directory start [] start
  | change {runs : List (Config × IndexResult)} {files after : Files}
      (hruns : Runs directory start runs files)
      (hgraph : after.readText? (graphFile directory) = files.readText? (graphFile directory))
      (hcommunities : after.readText? (communityFile directory) =
        files.readText? (communityFile directory)) :
      Runs directory start runs after
  | run {runs : List (Config × IndexResult)} {files after : Files} {config : Config}
      {result : IndexResult} (hruns : Runs directory start runs files)
      (houtput : config.outputDir = some directory)
      (hindex : config.index files = (.ok result, after)) :
      Runs directory start ((config, result) :: runs) after

/-- The result of the last run that looks for communities. -/
def lastDetecting (runs : List (Config × IndexResult)) : Option IndexResult :=
  (runs.find? fun run => run.1.detectsCommunities).map Prod.snd

theorem lastDetecting_cons (config : Config) (result : IndexResult)
    (runs : List (Config × IndexResult)) :
    lastDetecting ((config, result) :: runs) =
      if config.detectsCommunities then some result else lastDetecting runs := by
  unfold lastDetecting
  cases hdetects : config.detectsCommunities <;> simp [hdetects]

namespace Runs

variable {directory : String} {start files : Files} {runs : List (Config × IndexResult)}

theorem graph (hruns : Runs directory start runs files) :
    files.readText? (graphFile directory) =
      (runs.head?.map fun run => run.2.store.toJson.render).or
        (start.readText? (graphFile directory)) := by
  induction hruns with
  | start => rfl
  | change hruns hgraph hcommunities ih => rw [hgraph, ih]
  | run hruns houtput hindex ih => exact (Config.saved_of_index houtput hindex).1.graph

theorem fits (hruns : Runs directory start runs files) : ∀ run ∈ runs, run.2.Fits := by
  induction hruns with
  | start => exact fun _ hmem => nomatch hmem
  | change hruns hgraph hcommunities ih => exact ih
  | run hruns houtput hindex ih =>
      intro run hmem
      rcases List.mem_cons.mp hmem with rfl | hearlier
      · exact (Config.saved_of_index houtput hindex).2
      · exact ih run hearlier

theorem fits_lastDetecting (hruns : Runs directory start runs files) {last : IndexResult}
    (hlast : lastDetecting runs = some last) : last.Fits := by
  obtain ⟨run, hfound, rfl⟩ := Option.map_eq_some_iff.mp hlast
  exact hruns.fits run (List.mem_of_find?_eq_some hfound)

/-- A graph that was saved shows that the directory is there. -/
theorem exists_isAt (hruns : Runs directory start runs files)
    (hsaved : runs ≠ [] ∨ (start.readText? (graphFile directory)).isSome = true) :
    ∃ place, files.IsAt directory place := by
  have hsome : (files.readText? (graphFile directory)).isSome = true := by
    rw [hruns.graph]
    cases runs with
    | nil => simpa using hsaved
    | cons run earlier => rfl
  obtain ⟨text, htext⟩ := Option.isSome_iff_exists.mp hsome
  exact Files.exists_isAt_of_readText? isEntry_graphFileName htext

theorem communities (hruns : Runs directory start runs files)
    (hknown : lastDetecting runs = none → (start.readText? (graphFile directory)).isSome = true) :
    files.readText? (communityFile directory) =
      ((lastDetecting runs).map fun result => result.communities.toJson.render).or
        (start.readText? (communityFile directory)) := by
  induction hruns with
  | start => rfl
  | change hruns hgraph hcommunities ih => rw [hcommunities, ih hknown]
  | @run runs files after config result hruns houtput hindex ih =>
      have hsaved := (Config.saved_of_index houtput hindex).1
      rw [lastDetecting_cons] at hknown ⊢
      cases hdetects : config.detectsCommunities with
      | true => simpa using hsaved.communities hdetects
      | false =>
          rw [hdetects, if_neg Bool.false_ne_true] at hknown
          rw [if_neg Bool.false_ne_true]
          have hearlier : runs ≠ [] ∨ (start.readText? (graphFile directory)).isSome = true := by
            cases runs with
            | nil => exact .inr (hknown rfl)
            | cons run earlier => exact .inl (List.cons_ne_nil run earlier)
          obtain ⟨place, hat⟩ := hruns.exists_isAt hearlier
          rw [hsaved.kept hdetects place hat, ih hknown]

end Runs

/-- After runs into one directory, the graph is that of the last run, and the communities are those
of the last run that looked for them.  They are communities of chunks of its graph, which is the
graph beside them if that run was the last of all. -/
theorem saved_documents_of_runs (directory : String) (start after : Files) (config : Config)
    (result : IndexResult) (earlier : List (Config × IndexResult))
    (hruns : Runs directory start ((config, result) :: earlier) after) :
    after.readText? (graphFile directory) = some result.store.toJson.render ∧
    (∀ last, lastDetecting ((config, result) :: earlier) = some last →
      after.readText? (communityFile directory) = some last.communities.toJson.render ∧
      ∀ id ∈ last.communities.map Prod.fst, id ∈ last.store.chunkIds) ∧
    (config.detectsCommunities = true →
      lastDetecting ((config, result) :: earlier) = some result) ∧
    (lastDetecting ((config, result) :: earlier) = none →
      (start.readText? (graphFile directory)).isSome = true →
      after.readText? (communityFile directory) =
        start.readText? (communityFile directory)) := by
  refine ⟨hruns.graph, ?_, ?_, ?_⟩
  · intro last hlast
    have htext := hruns.communities fun hnone => nomatch hlast.symm.trans hnone
    rw [hlast] at htext
    exact ⟨htext, hruns.fits_lastDetecting hlast⟩
  · intro hdetects
    rw [lastDetecting_cons, if_pos hdetects]
  · intro hnone hknown
    have htext := hruns.communities fun _ => hknown
    rw [hnone] at htext
    exact htext

/-! Two projects that are saved in one directory, the second one empty and without communities -/

def twoProjects : Files :=
  { root := .directory
      [("one", .directory [("a.py", .ofText "f = 0\n")]),
        ("two", .directory [])] }

def firstProject : Config :=
  { repoPath := "/one", outputDir := some "/out" }

def secondProject : Config :=
  { repoPath := "/two", outputDir := some "/out", detectsCommunities := false }

def afterBoth : Files :=
  (secondProject.index (firstProject.index twoProjects).2).2

theorem exists_ok_of_isSome (run : Except Error IndexResult × Files)
    (hsome : run.1.toOption.isSome = true) : ∃ result, run = (.ok result, run.2) := by
  obtain ⟨outcome, after⟩ := run
  cases outcome with
  | error reason => cases hsome
  | ok result => exact ⟨result, rfl⟩

theorem runs_twoProjects : ∃ first second,
    Runs "/out" twoProjects [(secondProject, second), (firstProject, first)] afterBoth := by
  obtain ⟨first, hfirst⟩ := exists_ok_of_isSome (firstProject.index twoProjects)
    (by decide +kernel)
  obtain ⟨second, hsecond⟩ :=
    exists_ok_of_isSome (secondProject.index (firstProject.index twoProjects).2)
      (by decide +kernel)
  exact ⟨first, second, (Runs.start.run rfl hfirst).run rfl hsecond⟩

theorem saved_documents_of_runs_both : ∃ first second,
    Runs "/out" twoProjects [(secondProject, second), (firstProject, first)] afterBoth ∧
    afterBoth.readText? (graphFile "/out") = some second.store.toJson.render ∧
    afterBoth.readText? (communityFile "/out") = some first.communities.toJson.render := by
  obtain ⟨first, second, hruns⟩ := runs_twoProjects
  have hsaved := saved_documents_of_runs "/out" twoProjects afterBoth secondProject second
    [(firstProject, first)] hruns
  exact ⟨first, second, hruns, hsaved.1, (hsaved.2.1 first rfl).1⟩

/-- The communities of the first project stay beside the graph of the second. -/
theorem communities_beside_another_graph :
    ¬∀ (directory : String) (start after : Files) (runs : List (Config × IndexResult)),
      Runs directory start runs after → ∀ (store : Store) (communities : Communities),
        after.readStore (graphFile directory) = .ok store →
        after.readCommunities (communityFile directory) = .ok communities →
          ∀ id ∈ communities.map Prod.fst, id ∈ store.chunkIds := by
  intro hfits
  obtain ⟨first, second, hruns⟩ := runs_twoProjects
  have hread : (afterBoth.readStore (graphFile "/out")).toOption.map Store.chunkIds =
        some [] ∧
      (afterBoth.readCommunities (communityFile "/out")).toOption.map (List.map Prod.fst) =
        some ["a.py:1-1:module"] := by
    decide +kernel
  cases hstore : afterBoth.readStore (graphFile "/out") with
  | error reason =>
      rw [hstore] at hread
      cases hread.1
  | ok store =>
      cases hcommunities : afterBoth.readCommunities (communityFile "/out") with
      | error reason =>
          rw [hcommunities] at hread
          cases hread.2
      | ok communities =>
          have hmem := hfits "/out" twoProjects afterBoth _ hruns store communities hstore
            hcommunities
          rw [hstore, hcommunities] at hread
          have hids : store.chunkIds = [] := Option.some.inj hread.1
          have hkeys : communities.map Prod.fst = ["a.py:1-1:module"] :=
            Option.some.inj hread.2
          rw [hids, hkeys] at hmem
          exact List.not_mem_nil (hmem _ List.mem_cons_self)

end CodeGraph
