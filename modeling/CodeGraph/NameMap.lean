namespace CodeGraph

/-! Finite maps from names, listed by increasing name.  Strings compare by code points, which is
also the order of their bytes. -/

abbrev NameMap (α : Type) := List (String × α)

namespace NameMap

variable {α : Type}

def get? (map : NameMap α) (name : String) : Option α :=
  (map.find? fun entry => entry.1 == name).map Prod.snd

def insert (map : NameMap α) (name : String) (value : α) : NameMap α :=
  match map with
  | [] => [(name, value)]
  | (other, kept) :: rest =>
      if name = other then (name, value) :: rest
      else if name < other then (name, value) :: (other, kept) :: rest
      else (other, kept) :: insert rest name value

/-- Inserts the entries from left to right, so that the last one of a name wins. -/
def insertAll (map : NameMap α) (entries : List (String × α)) : NameMap α :=
  entries.foldl (fun map entry => map.insert entry.1 entry.2) map

def ofList (entries : List (String × α)) : NameMap α :=
  insertAll [] entries

@[simp] theorem get?_nil (name : String) : get? ([] : NameMap α) name = none := rfl

theorem get?_cons (entry : String × α) (rest : NameMap α) (name : String) :
    get? (entry :: rest) name = if entry.1 = name then some entry.2 else get? rest name := by
  by_cases h : entry.1 = name <;> simp [get?, h]

theorem get?_insert (map : NameMap α) (name other : String) (value : α) :
    (map.insert name value).get? other = if name = other then some value else map.get? other := by
  induction map with
  | nil => simp [insert, get?_cons]
  | cons entry rest ih =>
      obtain ⟨key, kept⟩ := entry
      simp only [insert]
      split
      · next h => subst h; simp only [get?_cons]; split <;> rfl
      · next h =>
          split
          · simp only [get?_cons]
          · simp only [get?_cons, ih]
            by_cases hkey : key = other
            · subst hkey; simp [h]
            · simp [hkey]

/-! Maps in order -/

theorem mem_map_fst_insert {map : NameMap α} {name other : String} {value : α} :
    other ∈ (map.insert name value).map Prod.fst ↔ other = name ∨ other ∈ map.map Prod.fst := by
  induction map with
  | nil => simp [insert]
  | cons entry rest ih =>
      rw [insert]
      split
      · next hsame => simp [hsame]
      · split
        · simp
        · rw [List.map_cons, List.mem_cons, ih, List.map_cons, List.mem_cons]
          exact or_left_comm

theorem sorted_insert {map : NameMap α} (hsorted : (map.map Prod.fst).Pairwise (· < ·))
    (name : String) (value : α) : ((map.insert name value).map Prod.fst).Pairwise (· < ·) := by
  induction map with
  | nil => exact List.pairwise_singleton _ _
  | cons entry rest ih =>
      rw [List.map_cons, List.pairwise_cons] at hsorted
      rw [insert]
      split
      · next hsame => exact List.pairwise_cons.mpr ⟨hsame ▸ hsorted.1, hsorted.2⟩
      · next hne =>
          split
          · next hlt =>
              refine List.pairwise_cons.mpr ⟨?_, List.pairwise_cons.mpr hsorted⟩
              intro key hkey
              rcases List.mem_cons.mp hkey with rfl | hrest
              · exact hlt
              · exact String.lt_trans hlt (hsorted.1 key hrest)
          · next hnot =>
              refine List.pairwise_cons.mpr ⟨?_, ih hsorted.2⟩
              intro key hkey
              rcases mem_map_fst_insert.mp hkey with rfl | hrest
              · exact String.not_le.mp fun hle =>
                  hne (String.le_antisymm hle (String.not_lt.mp hnot))
              · exact hsorted.1 key hrest

theorem get?_of_forall_lt {map : NameMap α} {name : String}
    (hless : ∀ other ∈ map.map Prod.fst, name < other) : map.get? name = none := by
  rw [get?, Option.map_eq_none_iff, List.find?_eq_none]
  intro entry hmem hsame
  have hlt := hless entry.1 (List.mem_map_of_mem hmem)
  rw [beq_iff_eq.mp hsame] at hlt
  exact String.lt_irrefl name hlt

/-- A name in front of a map in order is missing there. -/
theorem get?_of_lt_head {entry : String × α} {rest : NameMap α} {name : String}
    (hsorted : ((entry :: rest).map Prod.fst).Pairwise (· < ·)) (hlt : name < entry.1) :
    get? (entry :: rest) name = none := by
  refine get?_of_forall_lt fun other hmem => ?_
  rcases List.mem_cons.mp hmem with rfl | hrest
  · exact hlt
  · exact String.lt_trans hlt ((List.pairwise_cons.mp hsorted).1 other hrest)

/-- Maps in order are the same if they give the same. -/
theorem eq_of_get?_eq {first second : NameMap α}
    (hfirst : (first.map Prod.fst).Pairwise (· < ·))
    (hsecond : (second.map Prod.fst).Pairwise (· < ·))
    (hsame : ∀ name, first.get? name = second.get? name) : first = second := by
  induction first generalizing second with
  | nil =>
      cases second with
      | nil => rfl
      | cons entry rest => simpa [get?_cons] using hsame entry.1
  | cons entry rest ih =>
      cases second with
      | nil => simpa [get?_cons] using hsame entry.1
      | cons other later =>
          have hvalue := hsame entry.1
          have hvalue' := hsame other.1
          rw [get?_cons, if_pos rfl] at hvalue
          rw [get?_cons other, if_pos rfl] at hvalue'
          -- the smaller of the first names would be missing on the other side
          have hname : entry.1 = other.1 := by
            refine String.le_antisymm (String.not_lt.mp fun hlt => ?_)
              (String.not_lt.mp fun hlt => ?_)
            · rw [get?_of_lt_head hfirst hlt] at hvalue'
              cases hvalue'
            · rw [get?_of_lt_head hsecond hlt] at hvalue
              cases hvalue
          rw [get?_cons, if_pos hname.symm] at hvalue
          obtain rfl : entry = other := Prod.ext hname (Option.some.inj hvalue)
          rw [List.map_cons, List.pairwise_cons] at hfirst hsecond
          refine congrArg (entry :: ·) (ih hfirst.2 hsecond.2 fun name => ?_)
          by_cases hhead : entry.1 = name
          · subst hhead
            rw [get?_of_forall_lt hfirst.1, get?_of_forall_lt hsecond.1]
          · have hrest := hsame name
            rwa [get?_cons, if_neg hhead, get?_cons, if_neg hhead] at hrest

end NameMap

end CodeGraph
