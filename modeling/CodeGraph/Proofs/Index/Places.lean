import CodeGraph.Index.Sources
import CodeGraph.Proofs.Files.Names
import CodeGraph.Proofs.Keyed
import CodeGraph.Proofs.Text.ByteOrder

namespace CodeGraph

/-! The walk through the directories of a project.  Names that are left out are left out on the way,
and still the files that are met are those of which no name on the whole way is left out. -/

instance (name : String) : Decidable (Files.IsEntry name) :=
  decidable_of_iff ('/' ∉ name.toList ∧ name ≠ "" ∧ name ≠ "." ∧ name ≠ "..")
    ⟨fun hname => ⟨hname.1, hname.2.1, hname.2.2.1, hname.2.2.2⟩,
      fun hentry => ⟨hentry.plain, hentry.ne_empty, hentry.ne_dot, hentry.ne_dots⟩⟩

namespace FileTree

/-- Each directory lists its names once, in increasing order. -/
inductive Lawful : FileTree → Prop
  | file (bytes : ByteArray) : Lawful (.file bytes)
  | closed (entry : ClosedEntry) : Lawful (.closed entry)
  | directory {entries : List (String × FileTree)}
      (hsorted : (entries.map Prod.fst).Pairwise (· < ·))
      (hnames : ∀ entry ∈ entries, Files.IsEntry entry.1)
      (hinner : ∀ entry ∈ entries, entry.2.Lawful) : Lawful (.directory entries)

/-- An entry of a directory that is not entered. -/
def skips (excludes : List String) (entry : String × FileTree) : Bool :=
  excludes.contains entry.1 || (entry.2.isDirectory && isHidden entry.1)

mutual

/-- The places of all that a walk meets. -/
def placesBelow (excludes : List String) : FileTree → List (List String × FileTree)
  | .directory entries => placesOfEntries excludes entries
  | .closed .directory => []
  | tree => [([], tree)]

def placesOfEntries (excludes : List String) :
    List (String × FileTree) → List (List String × FileTree)
  | [] => []
  | (name, tree) :: rest =>
      (if skips excludes (name, tree) then []
        else (tree.placesBelow excludes).map fun found => (name :: found.1, found.2)) ++
        placesOfEntries excludes rest

end

theorem placesOfEntries_eq_flatMap (excludes : List String) (entries : List (String × FileTree)) :
    placesOfEntries excludes entries = entries.flatMap fun entry =>
      if skips excludes entry then []
      else (entry.2.placesBelow excludes).map fun found => (entry.1 :: found.1, found.2) := by
  induction entries with
  | nil => rw [placesOfEntries, List.flatMap_nil]
  | cons entry rest ih => rw [placesOfEntries, ih, List.flatMap_cons]

theorem filesOfEntries_eq_flatMap (excludes : List String) (path : String)
    (entries : List (String × FileTree)) :
    filesOfEntries excludes path entries = entries.flatMap fun entry =>
      if skips excludes entry then []
      else entry.2.filesBelow excludes (Text.Path.join path entry.1) := by
  induction entries with
  | nil => rw [filesOfEntries, List.flatMap_nil]
  | cons entry rest ih =>
      rw [filesOfEntries, ih, List.flatMap_cons]
      rfl

theorem Lawful.filesBelow_eq_map {tree : FileTree} (hlawful : tree.Lawful) (excludes : List String)
    (path : String) :
    tree.filesBelow excludes path =
      (tree.placesBelow excludes).map fun found =>
        (found.1.foldl Text.Path.join path, found.2) := by
  induction hlawful generalizing path with
  | file bytes => simp [filesBelow, placesBelow]
  | closed entry => cases entry <;> simp [filesBelow, placesBelow]
  | @directory entries _ _ _ ih =>
      rw [filesBelow, placesBelow, filesOfEntries_eq_flatMap, placesOfEntries_eq_flatMap,
        List.map_flatMap]
      apply List.flatMap_congr
      intro entry hentry
      split
      · rfl
      · rw [ih entry hentry, List.map_map]
        rfl

theorem at?_directory_cons (entries : List (String × FileTree)) (name : String)
    (rest : List String) :
    (directory entries).at? (name :: rest) =
      (NameMap.get? entries name).bind fun tree => tree.at? rest := by
  rw [at?]
  cases NameMap.get? entries name <;> rfl

theorem get?_of_sorted {entries : List (String × FileTree)}
    (hsorted : (entries.map Prod.fst).Pairwise (· < ·)) {name : String} {tree : FileTree} :
    NameMap.get? entries name = some tree ↔ (name, tree) ∈ entries :=
  NameMap.get?_eq_some_iff (hsorted.imp fun hless => String.ne_of_lt hless)

/-- What is in a lawful tree is lawful, and so are the names that lead to it. -/
theorem Lawful.of_at? {tree inner : FileTree} (hlawful : tree.Lawful) {place : List String}
    (hat : tree.at? place = some inner) :
    inner.Lawful ∧ ∀ name ∈ place, Files.IsEntry name := by
  induction place generalizing tree with
  | nil =>
      rw [at?] at hat
      cases hat
      exact ⟨hlawful, by simp⟩
  | cons name rest ih =>
      cases hlawful with
      | file bytes => cases hat
      | closed entry => cases hat
      | @directory entries hsorted hnames hinner =>
          rw [at?_directory_cons] at hat
          obtain ⟨next, hnext, hat⟩ := Option.bind_eq_some_iff.mp hat
          have hentry := (get?_of_sorted hsorted).mp hnext
          obtain ⟨hlast, hrest⟩ := ih (hinner _ hentry) hat
          exact ⟨hlast, List.forall_mem_cons.mpr ⟨hnames _ hentry, hrest⟩⟩

/-! What is met -/

/-- Something other than a directory, with no excluded name on the way to it and no hidden
directory. -/
structure Visits (excludes : List String) (tree : FileTree) (place : List String)
    (found : FileTree) : Prop where
  at_place : tree.at? place = some found
  not_directory : found.isDirectory = false
  allowed : ∀ name ∈ place, name ∉ excludes
  visible : ∀ name ∈ place.dropLast, isHidden name = false

/-- A tree that is no directory is met itself. -/
theorem visits_leaf {excludes : List String} {tree found : FileTree} {place : List String}
    (hleaf : ∀ name rest, tree.at? (name :: rest) = none) :
    Visits excludes tree place found ↔ place = [] ∧ found = tree ∧ tree.isDirectory = false := by
  constructor
  · intro hvisits
    have hat := hvisits.at_place
    cases place with
    | nil =>
        rw [at?] at hat
        cases hat
        exact ⟨rfl, rfl, hvisits.not_directory⟩
    | cons name rest =>
        rw [hleaf] at hat
        cases hat
  · rintro ⟨rfl, rfl, hdirectory⟩
    exact ⟨by rw [at?], hdirectory, by simp, by simp⟩

theorem isDirectory_iff_of_at? {tree found : FileTree} {place : List String}
    (hat : tree.at? place = some found) (hfound : found.isDirectory = false) :
    tree.isDirectory = true ↔ place ≠ [] := by
  cases place with
  | nil =>
      rw [at?] at hat
      cases hat
      simp [hfound]
  | cons name rest =>
      cases tree with
      | file content => cases hat
      | closed entry => cases hat
      | directory entries => simp [isDirectory]

theorem forall_mem_dropLast_cons {allows : String → Prop} {name : String} {rest : List String} :
    (∀ other ∈ (name :: rest).dropLast, allows other) ↔
      (rest ≠ [] → allows name) ∧ ∀ other ∈ rest.dropLast, allows other := by
  cases rest with
  | nil => simp
  | cons next rest => rw [List.dropLast_cons_cons, List.forall_mem_cons, imp_iff_right (by simp)]

theorem skips_eq_false_iff {excludes : List String} {entry : String × FileTree} :
    skips excludes entry = false ↔
      entry.1 ∉ excludes ∧ (entry.2.isDirectory = true → isHidden entry.1 = false) := by
  simp [skips]

/-- A name at a time. -/
theorem visits_cons {excludes : List String} {entries : List (String × FileTree)} {name : String}
    {rest : List String} {found : FileTree} :
    Visits excludes (.directory entries) (name :: rest) found ↔
      ∃ tree, NameMap.get? entries name = some tree ∧ skips excludes (name, tree) = false ∧
        Visits excludes tree rest found := by
  constructor
  · rintro ⟨hat, hleaf, hallowed, hvisible⟩
    rw [at?_directory_cons] at hat
    obtain ⟨tree, hinner, hat⟩ := Option.bind_eq_some_iff.mp hat
    rw [List.forall_mem_cons] at hallowed
    rw [forall_mem_dropLast_cons] at hvisible
    refine ⟨tree, hinner, skips_eq_false_iff.mpr ⟨hallowed.1, ?_⟩, hat, hleaf, hallowed.2,
      hvisible.2⟩
    exact fun hdirectory => hvisible.1 ((isDirectory_iff_of_at? hat hleaf).mp hdirectory)
  · rintro ⟨tree, hinner, hskips, hat, hleaf, hallowed, hvisible⟩
    rw [skips_eq_false_iff] at hskips
    refine ⟨?_, hleaf, ?_, ?_⟩
    · rw [at?_directory_cons, hinner, Option.bind_some, hat]
    · exact List.forall_mem_cons.mpr ⟨hskips.1, hallowed⟩
    · refine forall_mem_dropLast_cons.mpr ⟨?_, hvisible⟩
      exact fun hrest => hskips.2 ((isDirectory_iff_of_at? hat hleaf).mpr hrest)

theorem visits_directory {excludes : List String} {entries : List (String × FileTree)}
    (hsorted : (entries.map Prod.fst).Pairwise (· < ·)) {place : List String}
    {found : FileTree} :
    Visits excludes (.directory entries) place found ↔
      ∃ entry ∈ entries, skips excludes entry = false ∧
        ∃ rest, place = entry.1 :: rest ∧ Visits excludes entry.2 rest found := by
  constructor
  · intro hvisits
    cases place with
    | nil =>
        have hat := hvisits.at_place
        have hleaf := hvisits.not_directory
        rw [at?] at hat
        cases hat
        cases hleaf
    | cons name rest =>
        obtain ⟨tree, hinner, hskips, hvisits⟩ := visits_cons.mp hvisits
        exact ⟨(name, tree), (get?_of_sorted hsorted).mp hinner, hskips, rest, rfl, hvisits⟩
  · rintro ⟨⟨name, tree⟩, hentry, hskips, rest, rfl, hvisits⟩
    exact visits_cons.mpr ⟨tree, (get?_of_sorted hsorted).mpr hentry, hskips, hvisits⟩

theorem Lawful.mem_placesBelow {tree : FileTree} (hlawful : tree.Lawful) {excludes : List String}
    {place : List String} {found : FileTree} :
    (place, found) ∈ tree.placesBelow excludes ↔ Visits excludes tree place found := by
  induction hlawful generalizing place with
  | file content =>
      rw [visits_leaf fun _ _ => rfl]
      simp [placesBelow, isDirectory]
  | closed entry =>
      rw [visits_leaf fun _ _ => rfl]
      cases entry <;> simp [placesBelow, isDirectory]
  | @directory entries hsorted _ _ ih =>
      rw [placesBelow, placesOfEntries_eq_flatMap, List.mem_flatMap, visits_directory hsorted]
      refine exists_congr fun entry => and_congr_right fun hentry => ?_
      cases hskips : skips excludes entry with
      | true => simp
      | false =>
          rw [if_neg Bool.false_ne_true, List.mem_map, eq_self, true_and]
          constructor
          · rintro ⟨⟨rest, content⟩, hmet, hsame⟩
            cases hsame
            exact ⟨rest, rfl, (ih entry hentry).mp hmet⟩
          · rintro ⟨rest, rfl, hvisits⟩
            exact ⟨(rest, found), (ih entry hentry).mpr hvisits, rfl⟩

/-! The order in which they are met -/

/-- A place by the bytes of its names. -/
def placeBytes (place : List String) : List (List UInt8) :=
  place.map Text.bytes

theorem Lawful.pairwise_placesBelow {tree : FileTree} (hlawful : tree.Lawful)
    (excludes : List String) :
    (tree.placesBelow excludes).Pairwise fun first second =>
      placeBytes first.1 < placeBytes second.1 := by
  induction hlawful with
  | file bytes => simp [placesBelow]
  | closed entry => cases entry <;> simp [placesBelow]
  | @directory entries hsorted _ _ ih =>
      rw [placesBelow, placesOfEntries_eq_flatMap, List.pairwise_flatMap]
      constructor
      · intro entry hentry
        split
        · exact .nil
        · rw [List.pairwise_map]
          exact (ih entry hentry).imp fun hless => List.Lex.cons hless
      · refine (List.pairwise_map.mp hsorted).imp ?_
        intro first second hless found hfound other hother
        split at hfound
        · cases hfound
        split at hother
        · cases hother
        obtain ⟨_, -, rfl⟩ := List.mem_map.mp hfound
        obtain ⟨_, -, rfl⟩ := List.mem_map.mp hother
        exact List.Lex.rel (Text.bytes_lt hless)

end FileTree

end CodeGraph
