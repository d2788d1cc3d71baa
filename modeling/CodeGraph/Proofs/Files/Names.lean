import CodeGraph.Proofs.Files.Writing

namespace CodeGraph

/-! Paths that are made by going from name to name.  Such a path ends with its last name, and leads
to where the names lead. -/

namespace Text.Path

/-! Extensions -/

theorem splitExtension_append {front back : List Char} (hfront : front ≠ []) (hback : '.' ∉ back) :
    splitExtension (front ++ '.' :: back) = (front, some back) := by
  have hlength : (front ++ '.' :: back).length - back.length - 1 = front.length := by
    rw [List.length_append, List.length_cons]
    omega
  have hshorter : (back.length == (front ++ '.' :: back).length) = false := by
    rw [beq_eq_false_iff_ne, List.length_append, List.length_cons]
    omega
  rw [splitExtension, afterLast_append_cons front hback, hlength, List.take_left, hshorter]
  simp [hfront]

theorem splitExtension_hidden {back : List Char} (hback : '.' ∉ back) :
    (splitExtension ('.' :: back)).2 = none := by
  have hlast := afterLast_append_cons [] hback
  rw [List.nil_append] at hlast
  simp [splitExtension, hlast]

theorem splitExtension_of_not_mem {name : List Char} (hdot : '.' ∉ name) :
    (splitExtension name).2 = none := by
  have hlast : afterLast '.' ([] ++ name) = name := afterLast_append hdot (by simp)
  rw [List.nil_append] at hlast
  simp [splitExtension, hlast]

theorem splitExtension_eq_some_iff {name extension : List Char} :
    (splitExtension name).2 = some extension ↔
      ∃ front, front ≠ [] ∧ name = front ++ '.' :: extension ∧ '.' ∉ extension := by
  constructor
  · intro hsplit
    by_cases hdot : '.' ∈ name
    · obtain ⟨back, front, hreverse, hback⟩ :=
        List.eq_append_cons_of_mem (List.mem_reverse.mpr hdot)
      obtain rfl : name = front.reverse ++ '.' :: back.reverse := by
        rw [← List.reverse_reverse name, hreverse]
        simp
      have hlast : '.' ∉ back.reverse := hback ∘ List.mem_reverse.mp
      cases front with
      | nil =>
          rw [List.reverse_nil, List.nil_append, splitExtension_hidden hlast] at hsplit
          cases hsplit
      | cons c rest =>
          have hfront : (c :: rest).reverse ≠ [] := by simp
          rw [splitExtension_append hfront hlast] at hsplit
          cases hsplit
          exact ⟨_, hfront, rfl, hlast⟩
    · rw [splitExtension_of_not_mem hdot] at hsplit
      cases hsplit
  · rintro ⟨front, hfront, rfl, hback⟩
    rw [splitExtension_append hfront hback]

/-! Last names -/

theorem getLast?_components {path : String} {part : List Char}
    (hlast : (splitAt '/' path.toList).getLast? = some part) (hname : isName part = true) :
    (components path).getLast? = some part := by
  have hfilter : ∀ {parts : List (List Char)}, parts.getLast? = some part →
      (parts.filter isName).getLast? = some part := by
    intro parts hparts
    obtain ⟨front, rfl⟩ := List.getLast?_eq_some_iff.mp hparts
    simp [List.filter_append, hname]
  cases hrooted : isRooted path with
  | true =>
      obtain ⟨rest, hpath⟩ := exists_rest_of_isRooted hrooted
      obtain ⟨first, others, hsplit⟩ := List.exists_cons_of_ne_nil (splitAt_ne_nil '/' rest)
      rw [hpath, splitAt, if_pos rfl, hsplit, List.getLast?_cons_cons, ← hsplit] at hlast
      rw [components_of_rooted hpath, List.getLast?_cons, hfilter hlast, Option.getD_some]
  | false =>
      obtain ⟨first, rest, hsplit⟩ := List.exists_cons_of_ne_nil (splitAt_ne_nil '/' path.toList)
      rw [components_of_not_rooted hrooted hsplit]
      rw [hsplit] at hlast
      cases rest with
      | nil =>
          cases hlast
          have hsome : first ≠ [] := by
            rintro rfl
            cases hname
          simp [hsome]
      | cons second others =>
          rw [List.getLast?_cons_cons] at hlast
          rw [List.getLast?_append, hfilter hlast, Option.some_or]

theorem fileName?_join (directory : String) {name : String} (hentry : Files.IsEntry name) :
    fileName? (join directory name) = some name.toList := by
  have hdots : ∀ text, name ≠ String.ofList text → name.toList ≠ text := by
    rintro _ hne rfl
    exact hne String.ofList_toList.symm
  have hlast : (splitAt '/' (join directory name).toList).getLast? = some name.toList := by
    have hparts := congrArg List.getLast? (Files.parts_join directory hentry.plain)
    rw [Files.parts, List.getLast?_map, List.getLast?_append, List.getLast?_singleton,
      Option.some_or, Option.map_eq_some_iff] at hparts
    obtain ⟨part, hpart, hsame⟩ := hparts
    rw [hpart, ← hsame, String.toList_ofList]
  have hdot : name.toList ≠ ['.'] := hdots ['.'] hentry.ne_dot
  have hname : isName name.toList = true := by
    have hempty : name.toList ≠ [] := hdots [] hentry.ne_empty
    rw [isName, beq_false_of_ne hempty, beq_false_of_ne hdot]
    rfl
  have hslash : name.toList ≠ ['/'] := by
    intro hsame
    exact hentry.plain (hsame ▸ List.mem_singleton_self '/')
  have hup : name.toList ≠ ['.', '.'] := hdots ['.', '.'] hentry.ne_dots
  rw [fileName?, getLast?_components hlast hname]
  dsimp only
  rw [beq_false_of_ne hslash, beq_false_of_ne hdot, beq_false_of_ne hup]
  rfl

end Text.Path

namespace Files

/-! Places -/

theorem parts_append_slash (path : String) : parts (path ++ "/") = parts path ++ [""] := by
  rw [parts, parts, String.toList_append]
  have hsplit := Text.splitAt_append '/' path.toList []
  rw [show "/".toList = ['/'] from rfl, hsplit, List.map_append]
  rfl

theorem isAt_of_locate {files : Files} {path : String} {place : List String}
    (hlocate : files.locate path = .ok place) (hlook : files.root.look place = some .directory) :
    files.IsAt path place := by
  rw [locate] at hlocate
  split at hlocate
  · cases hlocate
  · next hne =>
      apply isAt_of_walk ?_ hlook
      have hempty : Text.Path.isRooted "" = false := by decide
      rw [Text.Path.folder, Text.Path.join, hempty, Bool.false_or, if_neg (by simpa using hne)]
      split
      · rw [String.append_empty]
        exact hlocate
      · have hstart : files.start (path ++ "/") = files.start path := by
          obtain ⟨c, rest, hpath⟩ := List.exists_cons_of_ne_nil (mt String.toList_eq_nil_iff.mp hne)
          simp [start, Text.Path.isRooted, hpath]
        rw [String.append_empty, parts_append_slash, hstart, List.foldlM_append, hlocate]
        change files.step place "" >>= pure = .ok place
        rw [bind_pure, step_of_directory hlook, if_pos (.inl rfl)]

theorem IsAt.join {files : Files} {directory name : String} {place : List String}
    (hat : files.IsAt directory place) (hentry : IsEntry name)
    (hlook : files.root.look (place ++ [name]) = some .directory) :
    files.IsAt (Text.Path.join directory name) (place ++ [name]) := by
  apply isAt_of_locate ?_ hlook
  rw [locate_join files directory hentry.plain hentry.ne_empty, hat.walk]
  change files.step place name = _
  rw [step_of_directory hat.look, if_neg (not_or.mpr ⟨hentry.ne_empty, hentry.ne_dot⟩),
    if_neg hentry.ne_dots, hlook, if_pos Option.isSome_some]

/-- Name by name, a path leads to the place that the names lead to. -/
theorem IsAt.readText?_foldl_join {files : Files} {directory : String} {base place : List String}
    {text : String} (hat : files.IsAt directory base) (hne : place ≠ [])
    (hentries : ∀ name ∈ place, IsEntry name)
    (hfile : files.root.at? (base ++ place) = some (.ofText text)) :
    files.readText? (place.foldl Text.Path.join directory) = some text := by
  induction place generalizing directory base with
  | nil => exact absurd rfl hne
  | cons name rest ih =>
      rw [List.forall_mem_cons] at hentries
      rw [List.foldl_cons]
      cases rest with
      | nil =>
          rw [List.foldl_nil, hat.readText? hentries.1, FileTree.look, hfile]
          exact fromUTF8?_toUTF8 text
      | cons next rest =>
          rw [← List.singleton_append, ← List.append_assoc] at hfile
          have hlook : files.root.look (base ++ [name]) = some .directory := by
            apply FileTree.look_of_look_append (List.cons_ne_nil next rest)
            rw [FileTree.look, hfile]
            rfl
          exact ih (hat.join hentries.1 hlook) (List.cons_ne_nil next rest) hentries.2 hfile

end Files

end CodeGraph
