import CodeGraph.Proofs.Files.Paths
import CodeGraph.Proofs.Files.Trees

namespace CodeGraph

/-! A file that is written reads back, and its neighbours read as before. -/

namespace Text

theorem splitAt_of_not_mem {separator : Char} {text : List Char} (hnone : separator ∉ text) :
    splitAt separator text = [text] := by
  induction text with
  | nil => rfl
  | cons c rest ih =>
      rw [List.mem_cons, not_or] at hnone
      rw [splitAt, if_neg (Ne.symm hnone.1), ih hnone.2]

theorem splitAt_append (separator : Char) (front back : List Char) :
    splitAt separator (front ++ separator :: back) =
      splitAt separator front ++ splitAt separator back := by
  induction front with
  | nil => simp [splitAt]
  | cons c rest ih =>
      rw [List.cons_append, splitAt, splitAt, ih]
      split
      · rfl
      · obtain ⟨first, others, hsplit⟩ :=
          List.exists_cons_of_ne_nil (splitAt_ne_nil separator rest)
        rw [hsplit]
        rfl

namespace Path

/-- A name of one file or directory. -/
def IsPlain (name : String) : Prop :=
  '/' ∉ name.toList

/-- Where the names in a directory go. -/
def folder (directory : String) : String :=
  join directory ""

theorem isRooted_of_isPlain {name : String} (hplain : IsPlain name) : isRooted name = false := by
  cases hrooted : isRooted name with
  | false => rfl
  | true =>
      obtain ⟨rest, hrest⟩ := exists_rest_of_isRooted hrooted
      exact absurd (hrest ▸ List.mem_cons_self) hplain

theorem join_eq_folder_append (directory : String) {name : String} (hplain : IsPlain name) :
    join directory name = folder directory ++ name := by
  rw [folder, join, join, isRooted_of_isPlain hplain]
  have hempty : isRooted "" = false := by decide
  rw [hempty, Bool.false_or]
  split
  · simp
  · split <;> simp

theorem getLast?_folder {directory : String} {c : Char}
    (hlast : (folder directory).toList.getLast? = some c) : c = '/' := by
  rw [folder, join] at hlast
  split at hlast
  · simp at hlast
  · split at hlast
    · next hslash =>
        rw [String.append_empty, beq_iff_eq.mp hslash] at hlast
        exact (Option.some.inj hlast).symm
    · simpa [eq_comm] using hlast

end Path

end Text

namespace Files

/-! Walking along a path -/

theorem step_of_directory {files : Files} {place : List String}
    (hplace : files.root.look place = some .directory) (part : String) :
    files.step place part =
      if part = "" ∨ part = "." then .ok place
      else if part = ".." then .ok place.dropLast
      else if (files.root.look (place ++ [part])).isSome then .ok (place ++ [part])
      else .error .missing := by
  rw [FileTree.look_append]
  obtain ⟨tree, hat, hseen⟩ := Option.map_eq_some_iff.mp hplace
  cases tree with
  | file bytes => cases hseen
  | closed entry => cases hseen
  | directory entries =>
      have hentry : ((FileTree.directory entries).look [part]).isSome =
          (NameMap.get? entries part).isSome := by
        rw [FileTree.look_directory_cons]
        cases NameMap.get? entries part with
        | none => rfl
        | some inner => simp [FileTree.look_nil]
      rw [step, hat, Option.bind_some, hentry]

theorem directory_of_step {files : Files} {place next : List String} {part : String}
    (hstep : files.step place part = .ok next) : files.root.look place = some .directory := by
  unfold step at hstep
  split at hstep
  · cases hstep
  · cases hstep
  · cases hstep
  · next entries hat => rw [FileTree.look, hat, Option.map_some, FileTree.seen]

/-- Every directory of the first files is one of the second. -/
def KeepsDirectories (files after : Files) : Prop :=
  ∀ place, files.root.look place = some .directory → after.root.look place = some .directory

theorem KeepsDirectories.step {files after : Files} (hkeeps : files.KeepsDirectories after)
    {place next : List String} {part : String} (hstep : files.step place part = .ok next)
    (hnext : files.root.look next = some .directory) : after.step place part = .ok next := by
  have hplace := directory_of_step hstep
  rw [step_of_directory hplace] at hstep
  rw [step_of_directory (hkeeps place hplace)]
  split at hstep
  · next hstays => rw [if_pos hstays, hstep]
  · next hmoves =>
      rw [if_neg hmoves]
      split at hstep
      · next hup => rw [if_pos hup, hstep]
      · next hdown =>
          split at hstep
          · cases hstep
            rw [if_neg hdown, hkeeps _ hnext, Option.isSome_some, if_pos rfl]
          · cases hstep

theorem directory_of_walk {files : Files} {parts : List String} {place last : List String}
    (hwalk : parts.foldlM files.step place = .ok last)
    (hlast : files.root.look last = some .directory) : files.root.look place = some .directory := by
  cases parts with
  | nil =>
      cases hwalk
      exact hlast
  | cons part rest =>
      rw [List.foldlM_cons] at hwalk
      cases hstep : files.step place part with
      | error reason =>
          rw [hstep] at hwalk
          cases hwalk
      | ok next => exact directory_of_step hstep

theorem KeepsDirectories.walk {files after : Files} (hkeeps : files.KeepsDirectories after)
    {parts : List String} {place last : List String}
    (hwalk : parts.foldlM files.step place = .ok last)
    (hlast : files.root.look last = some .directory) :
    parts.foldlM after.step place = .ok last := by
  induction parts generalizing place with
  | nil => exact hwalk
  | cons part rest ih =>
      rw [List.foldlM_cons] at hwalk ⊢
      cases hstep : files.step place part with
      | error reason =>
          rw [hstep] at hwalk
          cases hwalk
      | ok next =>
          rw [hstep] at hwalk
          rw [hkeeps.step hstep (directory_of_walk hwalk hlast)]
          exact ih hwalk

/-! Directories that are made on the way -/

/-- What one stretch of a path makes. -/
structure Entered (files made : Files) (place next : List String) (part : String) : Prop where
  here : made.here = files.here
  keeps : ∀ other seen, files.root.look other = some seen → made.root.look other = some seen
  step : made.step place part = .ok next
  next : made.root.look next = some .directory

theorem entered_of_enter {files made : Files} {place next : List String} {part : String}
    (henter : enter (files, place) part = .ok (made, next)) :
    Entered files made place next part := by
  unfold enter at henter
  dsimp only at henter
  split at henter
  · next reached hstep =>
      split at henter
      · next entries hat =>
          cases henter
          exact ⟨rfl, fun _ _ hlook => hlook, hstep, by simp [FileTree.look, hat, FileTree.seen]⟩
      · cases henter
      · cases henter
  · next hstep =>
      split at henter
      · next root hput =>
          cases henter
          have hplace := FileTree.look_of_put? hput
          rw [step_of_directory hplace] at hstep
          -- there was nothing at the place of the new directory
          obtain ⟨hname, hup, habsent⟩ : ¬(part = "" ∨ part = ".") ∧ part ≠ ".." ∧
              (files.root.look (place ++ [part])).isSome = false := by
            split at hstep
            · cases hstep
            · split at hstep
              · cases hstep
              · split at hstep
                · cases hstep
                · next hname hup hsome => exact ⟨hname, hup, by simpa using hsome⟩
          have hkeeps : ∀ other seen, files.root.look other = some seen →
              root.look other = some seen := by
            intro other seen hlook
            rw [FileTree.look_put? hput, if_neg, hlook]
            intro hinitial
            rw [FileTree.isSome_look_of_prefix hinitial (by rw [hlook, Option.isSome_some])]
              at habsent
            cases habsent
          have hnext : root.look (place ++ [part]) = some .directory := by
            rw [FileTree.look_put? hput, if_pos List.prefix_rfl, List.drop_length]
            rfl
          refine ⟨rfl, hkeeps, ?_, hnext⟩
          rw [step_of_directory (hkeeps place _ hplace), if_neg hname, if_neg hup, hnext,
            Option.isSome_some, if_pos rfl]
      · cases henter
  · cases henter

theorem walk_of_foldlM_enter {files made : Files} {parts : List String}
    {place last : List String} (hne : parts ≠ [])
    (hmade : parts.foldlM enter (files, place) = .ok (made, last)) :
    made.here = files.here ∧ files.KeepsDirectories made ∧
      parts.foldlM made.step place = .ok last ∧ made.root.look last = some .directory := by
  induction parts generalizing files place with
  | nil => exact absurd rfl hne
  | cons part rest ih =>
      rw [List.foldlM_cons] at hmade ⊢
      cases henter : enter (files, place) part with
      | error reason =>
          rw [henter] at hmade
          cases hmade
      | ok entered =>
          obtain ⟨between, next⟩ := entered
          rw [henter] at hmade
          have hentered := entered_of_enter henter
          have hkeeps : files.KeepsDirectories between :=
            fun other => hentered.keeps other .directory
          by_cases hrest : rest = []
          · subst hrest
            cases hmade
            rw [hentered.step]
            exact ⟨hentered.here, hkeeps, rfl, hentered.next⟩
          · obtain ⟨hhere, hlater, hwalk, hlast⟩ := ih hrest hmade
            rw [hlater.step hentered.step hentered.next]
            exact ⟨hhere.trans hentered.here, fun other hlook => hlater other (hkeeps other hlook),
              hwalk, hlast⟩

theorem foldlM_enter_of_walk {files made : Files} {parts : List String}
    {place last other : List String} (hwalk : parts.foldlM files.step place = .ok last)
    (hmade : parts.foldlM enter (files, place) = .ok (made, other)) :
    made = files ∧ other = last := by
  induction parts generalizing place with
  | nil =>
      cases hwalk
      cases hmade
      exact ⟨rfl, rfl⟩
  | cons part rest ih =>
      rw [List.foldlM_cons] at hwalk hmade
      cases hstep : files.step place part with
      | error reason =>
          rw [hstep] at hwalk
          cases hwalk
      | ok next =>
          rw [hstep] at hwalk
          have henter : enter (files, place) part = .ok (files, next) ∨
              ∃ reason, enter (files, place) part = .error reason := by
            unfold enter
            dsimp only
            rw [hstep]
            dsimp only
            split
            · exact .inl rfl
            · exact .inr ⟨_, rfl⟩
            · exact .inr ⟨_, rfl⟩
          rcases henter with henter | ⟨reason, henter⟩
          · rw [henter] at hmade
            exact ih hwalk hmade
          · rw [henter] at hmade
            cases hmade

/-! Names in a directory -/

open Text.Path (IsPlain folder join)

def lead (directory : String) : List String :=
  (parts (folder directory)).dropLast

theorem parts_join (directory : String) {name : String} (hplain : IsPlain name) :
    parts (join directory name) = lead directory ++ [name] := by
  have hname : (Text.splitAt '/' name.toList).map String.ofList = [name] := by
    rw [Text.splitAt_of_not_mem hplain, List.map_singleton, String.ofList_toList]
  rw [Text.Path.join_eq_folder_append directory hplain, lead, parts, parts, String.toList_append]
  rcases List.eq_nil_or_concat (folder directory).toList with hnil | ⟨front, last, hfolder⟩
  · simpa [hnil, Text.splitAt] using hname
  · have hlast : (folder directory).toList.getLast? = some last := by simp [hfolder]
    obtain rfl := Text.Path.getLast?_folder hlast
    rw [hfolder, List.concat_eq_append, List.append_assoc, List.singleton_append,
      Text.splitAt_append, Text.splitAt_append, List.map_append, List.map_append, hname]
    simp [Text.splitAt]

theorem parts_folder (directory : String) : parts (folder directory) = lead directory ++ [""] :=
  parts_join directory List.not_mem_nil

theorem start_join (files : Files) (directory : String) {name : String} (hplain : IsPlain name) :
    files.start (join directory name) = files.start (folder directory) := by
  rw [start, start, Text.Path.join_eq_folder_append directory hplain]
  cases hfolder : (folder directory).toList with
  | nil =>
      have hname := Text.Path.isRooted_of_isPlain hplain
      rw [Text.Path.isRooted] at hname
      simp [Text.Path.isRooted, hfolder, hname]
  | cons c rest => simp [Text.Path.isRooted, hfolder]

/-- The directory that a path leads to is at the place. -/
structure IsAt (files : Files) (directory : String) (place : List String) : Prop where
  walk : (lead directory).foldlM files.step (files.start (folder directory)) = .ok place
  look : files.root.look place = some .directory

theorem IsAt.keep {files after : Files} {directory : String} {place : List String}
    (hat : files.IsAt directory place) (hkeeps : files.KeepsDirectories after)
    (hhere : after.here = files.here) : after.IsAt directory place where
  walk := by
    have hstart : after.start (folder directory) = files.start (folder directory) := by
      rw [start, start, hhere]
    rw [hstart]
    exact hkeeps.walk hat.walk hat.look
  look := hkeeps place hat.look

theorem isAt_of_walk {files : Files} {directory : String} {place : List String}
    (hwalk : (parts (folder directory)).foldlM files.step (files.start (folder directory)) =
      .ok place)
    (hlook : files.root.look place = some .directory) : files.IsAt directory place := by
  rw [parts_folder, List.foldlM_append] at hwalk
  cases hlead : (lead directory).foldlM files.step (files.start (folder directory)) with
  | error reason =>
      rw [hlead] at hwalk
      cases hwalk
  | ok reached =>
      rw [hlead] at hwalk
      change files.step reached "" >>= pure = .ok place at hwalk
      rw [bind_pure] at hwalk
      have hstep := step_of_directory (directory_of_step hwalk) ""
      rw [hwalk, if_pos (.inl rfl)] at hstep
      cases hstep
      exact ⟨hlead, hlook⟩

theorem IsAt.walk_folder {files : Files} {directory : String} {place : List String}
    (hat : files.IsAt directory place) :
    (parts (folder directory)).foldlM files.step (files.start (folder directory)) = .ok place := by
  rw [parts_folder, List.foldlM_append, hat.walk]
  change files.step place "" >>= pure = .ok place
  rw [bind_pure, step_of_directory hat.look, if_pos (.inl rfl)]

theorem locate_join (files : Files) (directory : String) {name : String} (hplain : IsPlain name)
    (hne : name ≠ "") :
    files.locate (join directory name) =
      (lead directory).foldlM files.step (files.start (folder directory)) >>= fun place =>
        files.step place name := by
  have hpath : join directory name ≠ "" := by
    rw [Text.Path.join_eq_folder_append directory hplain]
    simp [hne]
  rw [locate, if_neg hpath, parts_join directory hplain, List.foldlM_append,
    start_join files directory hplain]
  refine congrArg _ (funext fun place => ?_)
  exact bind_pure _

/-- A name that leads into a directory. -/
structure IsEntry (name : String) : Prop where
  plain : IsPlain name
  ne_empty : name ≠ ""
  ne_dot : name ≠ "."
  ne_dots : name ≠ ".."

def textOf? : Option FileTree.Seen → Option String
  | some (.file bytes) => String.fromUTF8? bytes
  | _ => none

theorem IsAt.readText? {files : Files} {directory name : String} {place : List String}
    (hat : files.IsAt directory place) (hentry : IsEntry name) :
    files.readText? (join directory name) = textOf? (files.root.look (place ++ [name])) := by
  have hlocate : files.locate (join directory name) =
      if (files.root.look (place ++ [name])).isSome then .ok (place ++ [name])
      else .error .missing := by
    rw [locate_join files directory hentry.plain hentry.ne_empty, hat.walk]
    change files.step place name = _
    rw [step_of_directory hat.look, if_neg (not_or.mpr ⟨hentry.ne_empty, hentry.ne_dot⟩),
      if_neg hentry.ne_dots]
  rw [Files.readText?, readText, lookup, hlocate, FileTree.look]
  cases htree : files.root.at? (place ++ [name]) with
  | none => rfl
  | some tree =>
      cases tree with
      | directory entries => simp [htree, bind, Except.bind, FileTree.text, textOf?, FileTree.seen]
      | closed entry => simp [htree, bind, Except.bind, FileTree.text, textOf?, FileTree.seen]
      | file bytes =>
          cases htext : String.fromUTF8? bytes <;>
            simp [htree, bind, Except.bind, FileTree.text, textOf?, FileTree.seen, htext]

theorem exists_isAt_of_readText? {files : Files} {directory name text : String}
    (hentry : IsEntry name) (hread : files.readText? (join directory name) = some text) :
    ∃ place, files.IsAt directory place := by
  rw [Files.readText?, readText, lookup, locate_join files directory hentry.plain hentry.ne_empty]
    at hread
  cases hwalk : (lead directory).foldlM files.step (files.start (folder directory)) with
  | error reason => simp [hwalk, bind, Except.bind] at hread
  | ok place =>
      cases hstep : files.step place name with
      | error reason => simp [hwalk, hstep, bind, Except.bind] at hread
      | ok next => exact ⟨place, hwalk, directory_of_step hstep⟩

/-! Writing into a directory -/

theorem split_join (directory : String) {name : String} (hplain : IsPlain name) :
    String.ofList (Text.afterLast '/' (join directory name).toList) = name ∧
      String.ofList ((join directory name).toList.take
        ((join directory name).length - name.length)) = folder directory := by
  rw [Text.Path.join_eq_folder_append directory hplain, String.toList_append]
  constructor
  · rw [Text.afterLast_append hplain fun _ => Text.Path.getLast?_folder, String.ofList_toList]
  · have hlength : (folder directory ++ name).length - name.length =
        (folder directory).toList.length := by
      rw [String.length_append, Nat.add_sub_cancel, String.length_toList]
    rw [hlength, List.take_left, String.ofList_toList]

theorem not_directory_of_free {tree : FileTree} {place : List String}
    (hfree : ¬((tree.at? place).map FileTree.isDirectory).getD false = true) :
    tree.look place ≠ some .directory := by
  intro hlook
  obtain ⟨inner, hat, hseen⟩ := Option.map_eq_some_iff.mp hlook
  cases inner with
  | file bytes => cases hseen
  | closed entry => cases hseen
  | directory entries => exact hfree (by rw [hat]; rfl)

/-- The directory of a file that is written, after what is missing of it has been made. -/
structure Written (files made after : Files) (directory name : String) (content : FileTree)
    (place : List String) : Prop where
  made_eq : ∀ other, files.IsAt directory other → made = files
  isAt_made : made.IsAt directory place
  isAt_after : after.IsAt directory place
  look_name : after.root.look (place ++ [name]) = content.look []
  look_other : ∀ other, other ≠ name → other ≠ name ++ ".tmp" →
    after.root.look (place ++ [other]) = made.root.look (place ++ [other])

theorem written_of_write {files after : Files} {directory name : String} {content : FileTree}
    (hplain : IsPlain name) (hwrite : files.write (join directory name) content = .ok after) :
    ∃ made place, Written files made after directory name content place := by
  unfold write at hwrite
  obtain ⟨hname, hfolder⟩ := split_join directory hplain
  simp only [hname, hfolder] at hwrite
  cases hmade : files.makeDirectories (folder directory) with
  | error reason =>
      rw [hmade] at hwrite
      cases hwrite
  | ok reached =>
      obtain ⟨made, place⟩ := reached
      rw [hmade] at hwrite
      dsimp only [bind, Except.bind] at hwrite
      have hparts : parts (folder directory) ≠ [] := by simp [parts_folder]
      obtain ⟨hhere, -, hwalk, hplace⟩ := walk_of_foldlM_enter hparts hmade
      have hstart : made.start (folder directory) = files.start (folder directory) := by
        rw [start, start, hhere]
      have hat : made.IsAt directory place := isAt_of_walk (hstart ▸ hwalk) hplace
      split at hwrite
      · cases hwrite
      · next hfree =>
          rw [not_or] at hfree
          split at hwrite
          · next root hput =>
              cases hwrite
              have hlook : ∀ other, root.look other =
                  if place ++ [name] <+: other then
                    content.look (other.drop (place ++ [name]).length)
                  else if place ++ [name ++ ".tmp"] <+: other then none
                  else made.root.look other := by
                intro other
                rw [FileTree.look_put? hput, FileTree.look_erase (by simp)]
              -- no directory is lost: none was at the two places that change
              have hkeeps : ∀ other, made.root.look other = some .directory →
                  root.look other = some .directory := by
                intro other hother
                have hoff : ∀ changed, ¬((made.root.at? (place ++ [changed])).map
                    FileTree.isDirectory).getD false = true → ¬place ++ [changed] <+: other :=
                  fun changed hchanged hinitial =>
                    not_directory_of_free hchanged (FileTree.directory_of_prefix hinitial hother)
                rw [hlook, if_neg (hoff name hfree.2), if_neg (hoff _ hfree.1), hother]
              refine ⟨made, place, ⟨?_, hat, hat.keep hkeeps rfl, ?_, ?_⟩⟩
              · intro other hother
                exact (foldlM_enter_of_walk hother.walk_folder hmade).1
              · rw [hlook, if_pos List.prefix_rfl, List.drop_length]
              · intro other hne htemporary
                rw [hlook, if_neg, if_neg]
                · exact fun hinitial => htemporary (by simpa [eq_comm] using hinitial)
                · exact fun hinitial => hne (by simpa [eq_comm] using hinitial)
          · cases hwrite

theorem fromUTF8?_toUTF8 (text : String) : String.fromUTF8? text.toUTF8 = some text := by
  have hvalid : text.toUTF8.IsValidUTF8 := text.isValidUTF8
  rw [String.fromUTF8?, dif_pos hvalid]
  rfl

theorem readText?_writeText {files after : Files} {directory name text : String}
    (hentry : IsEntry name) (hwrite : files.writeText (join directory name) text = .ok after) :
    after.readText? (join directory name) = some text := by
  obtain ⟨made, place, hwritten⟩ := written_of_write hentry.plain hwrite
  rw [hwritten.isAt_after.readText? hentry, hwritten.look_name]
  exact fromUTF8?_toUTF8 text

theorem readText?_writeText_of_ne {files after : Files} {directory name other text : String}
    {place : List String} (hat : files.IsAt directory place) (hname : IsEntry name)
    (hother : IsEntry other) (hne : other ≠ name) (htemporary : other ≠ name ++ ".tmp")
    (hwrite : files.writeText (join directory name) text = .ok after) :
    after.readText? (join directory other) = files.readText? (join directory other) := by
  obtain ⟨made, reached, hwritten⟩ := written_of_write hname.plain hwrite
  obtain rfl := hwritten.made_eq place hat
  rw [hwritten.isAt_after.readText? hother, hwritten.isAt_made.readText? hother,
    hwritten.look_other other hne htemporary]

end Files

end CodeGraph
