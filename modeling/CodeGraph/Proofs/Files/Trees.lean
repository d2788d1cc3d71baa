import CodeGraph.Files.Tree
import Mathlib.Data.List.Infix

namespace CodeGraph

/-! What can be seen at the places of a tree, and what changes of it when something is put at a
place or taken away. -/

namespace FileTree

/-- What can be seen without a look into directories. -/
inductive Seen where
  | file (bytes : ByteArray)
  | directory
  | closed (entry : ClosedEntry)

def seen : FileTree → Seen
  | file bytes => .file bytes
  | directory _ => .directory
  | closed entry => .closed entry

/-- What can be seen at a place, if there is anything. -/
def look (tree : FileTree) (place : List String) : Option Seen :=
  (tree.at? place).map seen

theorem look_nil (tree : FileTree) : tree.look [] = some tree.seen := by
  cases tree <;> rfl

theorem look_file_cons (bytes : ByteArray) (name : String) (rest : List String) :
    (file bytes).look (name :: rest) = none := rfl

theorem look_closed_cons (entry : ClosedEntry) (name : String) (rest : List String) :
    (closed entry).look (name :: rest) = none := rfl

theorem look_directory_cons (entries : List (String × FileTree)) (name : String)
    (rest : List String) :
    (directory entries).look (name :: rest) =
      (NameMap.get? entries name).bind fun inner => inner.look rest := by
  rw [look, at?]
  cases NameMap.get? entries name <;> rfl

theorem at?_append (tree : FileTree) (place rest : List String) :
    tree.at? (place ++ rest) = (tree.at? place).bind fun inner => inner.at? rest := by
  induction place generalizing tree with
  | nil => cases tree <;> rfl
  | cons name others ih =>
      cases tree with
      | file bytes => rfl
      | closed entry => rfl
      | directory entries =>
          rw [List.cons_append, at?, at?]
          cases NameMap.get? entries name with
          | none => rfl
          | some inner => exact ih inner

theorem look_append (tree : FileTree) (place rest : List String) :
    tree.look (place ++ rest) = (tree.at? place).bind fun inner => inner.look rest := by
  rw [look, at?_append]
  cases tree.at? place <;> rfl

theorem look_of_look_append {tree : FileTree} {place rest : List String} (hne : rest ≠ [])
    (hsome : (tree.look (place ++ rest)).isSome = true) : tree.look place = some .directory := by
  rw [look_append] at hsome
  cases hat : tree.at? place with
  | none => simp [hat] at hsome
  | some inner =>
      rw [hat, Option.bind_some] at hsome
      obtain ⟨name, others, rfl⟩ := List.exists_cons_of_ne_nil hne
      cases inner with
      | file bytes => cases hsome
      | closed entry => cases hsome
      | directory entries => simp [look, hat, seen]

theorem directory_of_prefix {tree : FileTree} {place other : List String}
    (hinitial : place <+: other) (hlook : tree.look other = some .directory) :
    tree.look place = some .directory := by
  obtain ⟨rest, rfl⟩ := hinitial
  cases rest with
  | nil => simpa using hlook
  | cons name rest =>
      exact look_of_look_append (List.cons_ne_nil name rest) (by rw [hlook, Option.isSome_some])

theorem isSome_look_of_prefix {tree : FileTree} {place other : List String}
    (hinitial : place <+: other) (hsome : (tree.look other).isSome = true) :
    (tree.look place).isSome = true := by
  obtain ⟨rest, rfl⟩ := hinitial
  cases rest with
  | nil => simpa using hsome
  | cons name rest =>
      rw [look_of_look_append (List.cons_ne_nil name rest) hsome, Option.isSome_some]

/-! Changes at a place are seen only there -/

theorem put?_directory (entries : List (String × FileTree)) (name : String) (rest : List String)
    (new : FileTree) :
    (directory entries).put? (name :: rest) new =
      (if rest = [] then some new
        else (NameMap.get? entries name).bind fun inner => inner.put? rest new).map
        fun inner => directory (NameMap.insert entries name inner) := by
  cases rest with
  | nil => cases NameMap.get? entries name <;> simp [put?]
  | cons other rest => cases hget : NameMap.get? entries name <;> simp [put?, hget]

theorem look_put? {tree new after : FileTree} {place : List String}
    (hput : tree.put? place new = some after) (other : List String) :
    after.look other =
      if place <+: other then new.look (other.drop place.length) else tree.look other := by
  induction place generalizing tree after other with
  | nil =>
      rw [put?] at hput
      cases hput
      simp
  | cons name rest ih =>
      cases tree with
      | file bytes => cases hput
      | closed entry => cases hput
      | directory entries =>
          rw [put?_directory] at hput
          obtain ⟨inner, hinner, rfl⟩ := Option.map_eq_some_iff.mp hput
          -- the change goes on below the name
          have hbelow : ∀ others, inner.look others =
              if rest <+: others then new.look (others.drop rest.length)
              else (NameMap.get? entries name).bind fun old => old.look others := by
            intro others
            split at hinner
            · next hnil =>
                subst hnil
                cases hinner
                simp
            · obtain ⟨old, hold, hchanged⟩ := Option.bind_eq_some_iff.mp hinner
              rw [hold, Option.bind_some]
              exact ih hchanged others
          cases other with
          | nil => simp [look_nil, seen]
          | cons first others =>
              rw [look_directory_cons, look_directory_cons, NameMap.get?_insert]
              by_cases hname : name = first
              · subst hname
                rw [if_pos rfl, Option.bind_some, hbelow]
                simp [List.cons_prefix_cons]
              · simp [hname, List.cons_prefix_cons]

theorem look_of_put? {tree new after : FileTree} {place : List String} {name : String}
    (hput : tree.put? (place ++ [name]) new = some after) : tree.look place = some .directory := by
  induction place generalizing tree after with
  | nil =>
      cases tree with
      | file bytes => cases hput
      | closed entry => cases hput
      | directory entries => rfl
  | cons first rest ih =>
      cases tree with
      | file bytes => cases hput
      | closed entry => cases hput
      | directory entries =>
          rw [List.cons_append, put?_directory, if_neg (by simp)] at hput
          obtain ⟨inner, hinner, -⟩ := Option.map_eq_some_iff.mp hput
          obtain ⟨old, hold, hchanged⟩ := Option.bind_eq_some_iff.mp hinner
          rw [look_directory_cons, hold, Option.bind_some]
          exact ih hchanged

theorem get?_filter_ne {α : Type} (entries : NameMap α) (name other : String) :
    NameMap.get? (entries.filter fun entry => entry.1 != name) other =
      if name = other then none else NameMap.get? entries other := by
  induction entries with
  | nil => simp
  | cons entry rest ih =>
      rw [List.filter_cons, NameMap.get?_cons]
      by_cases hname : entry.1 = name
      · simp only [hname, bne_self_eq_false, Bool.false_eq_true, if_false, ih]
        split <;> rfl
      · by_cases hother : entry.1 = other
        · subst hother
          simp [hname, NameMap.get?_cons, Ne.symm hname]
        · simp [hname, hother, NameMap.get?_cons, ih]

theorem erase_directory (entries : List (String × FileTree)) (name : String)
    {rest : List String} (hne : rest ≠ []) :
    (directory entries).erase (name :: rest) =
      ((NameMap.get? entries name).map fun inner =>
        directory (NameMap.insert entries name (inner.erase rest))).getD (directory entries) := by
  obtain ⟨other, others, rfl⟩ := List.exists_cons_of_ne_nil hne
  cases hget : NameMap.get? entries name <;> simp [erase, hget]

theorem look_erase {tree : FileTree} {place : List String} (hne : place ≠ [])
    (other : List String) :
    (tree.erase place).look other = if place <+: other then none else tree.look other := by
  induction place generalizing tree other with
  | nil => exact absurd rfl hne
  | cons name rest ih =>
      cases tree with
      | file bytes => cases other <;> simp [erase, look_file_cons]
      | closed entry => cases other <;> simp [erase, look_closed_cons]
      | directory entries =>
          -- the directory stays one, and what is below the name is changed
          obtain ⟨kept, herase, hkept⟩ : ∃ kept, (directory entries).erase (name :: rest) =
              directory kept ∧ ∀ first others,
                (directory kept).look (first :: others) =
                  if name = first ∧ rest <+: others then none
                  else (directory entries).look (first :: others) := by
            by_cases hnil : rest = []
            · subst hnil
              refine ⟨_, rfl, fun first others => ?_⟩
              rw [look_directory_cons, look_directory_cons, get?_filter_ne]
              by_cases hname : name = first <;> simp [hname]
            · rw [erase_directory entries name hnil]
              cases hget : NameMap.get? entries name with
              | none =>
                  refine ⟨entries, rfl, fun first others => ?_⟩
                  split
                  · next hbelow => rw [look_directory_cons, ← hbelow.1, hget, Option.bind_none]
                  · rfl
              | some inner =>
                  refine ⟨_, rfl, fun first others => ?_⟩
                  rw [look_directory_cons, look_directory_cons, NameMap.get?_insert]
                  by_cases hname : name = first
                  · subst hname
                    rw [if_pos rfl, Option.bind_some, ih hnil, hget, Option.bind_some]
                    simp
                  · simp [hname]
          rw [herase]
          cases other with
          | nil => simp [look_nil, seen]
          | cons first others => simp only [hkept, List.cons_prefix_cons]

end FileTree

end CodeGraph
