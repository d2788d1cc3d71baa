import CodeGraph.NameMap
import Mathlib.Data.List.Induction
import Mathlib.Data.List.Nodup

namespace CodeGraph.Keyed

/-! Lists with a key for each item.  An item that is put into such a list joins the first one of
its key, or else it is appended. -/

variable {α κ : Type} [DecidableEq κ] {key : α → κ} {join : α → α → α}

def lookup? (key : α → κ) (items : List α) (wanted : κ) : Option α :=
  items.find? fun item => key item == wanted

def put (key : α → κ) (join : α → α → α) (item : α) : List α → List α
  | [] => [item]
  | other :: rest =>
      if key other = key item then join other item :: rest else other :: put key join item rest

/-- Items that join keep the key they share. -/
def JoinsKey (key : α → κ) (join : α → α → α) : Prop :=
  ∀ first other, key first = key other → key (join first other) = key other

/-! Looking up -/

theorem lookup?_isSome_iff {items : List α} {wanted : κ} :
    (lookup? key items wanted).isSome = true ↔ wanted ∈ items.map key := by
  simp [lookup?]

theorem lookup?_eq_none_iff {items : List α} {wanted : κ} :
    lookup? key items wanted = none ↔ wanted ∉ items.map key := by
  rw [← lookup?_isSome_iff, Option.not_isSome_iff_eq_none]

theorem key_of_lookup? {items : List α} {wanted : κ} {item : α}
    (hfound : lookup? key items wanted = some item) : key item = wanted := by
  simpa using List.find?_some hfound

theorem lookup?_cons (key : α → κ) (other : α) (rest : List α) (wanted : κ) :
    lookup? key (other :: rest) wanted =
      if key other = wanted then some other else lookup? key rest wanted := by
  by_cases hkey : key other = wanted <;> simp [lookup?, hkey]

theorem lookup?_eq_some_iff {items : List α} (hnodup : (items.map key).Nodup) {wanted : κ}
    {item : α} :
    lookup? key items wanted = some item ↔ item ∈ items ∧ key item = wanted := by
  constructor
  · intro hfound
    exact ⟨List.mem_of_find?_eq_some hfound, key_of_lookup? hfound⟩
  · rintro ⟨hmem, rfl⟩
    obtain ⟨found, hfound⟩ := Option.isSome_iff_exists.mp
      (lookup?_isSome_iff.mpr (List.mem_map_of_mem (f := key) hmem))
    have hsame : found = item :=
      List.inj_on_of_nodup_map hnodup (List.mem_of_find?_eq_some hfound) hmem
        (key_of_lookup? hfound)
    rw [hfound, hsame]

/-- The order of the items does not matter where no key stands twice. -/
theorem lookup?_perm {items others : List α} (hnodup : (items.map key).Nodup)
    (hperm : items.Perm others) (wanted : κ) :
    lookup? key items wanted = lookup? key others wanted := by
  have hothers : (others.map key).Nodup := (hperm.map key).nodup_iff.mp hnodup
  apply Option.ext
  intro item
  rw [lookup?_eq_some_iff hnodup, lookup?_eq_some_iff hothers, hperm.mem_iff]

/-- Lists in which the same is found for every key have the same items. -/
theorem perm_of_lookup?_eq {items others : List α} (hitems : (items.map key).Nodup)
    (hothers : (others.map key).Nodup)
    (hsame : ∀ wanted, lookup? key items wanted = lookup? key others wanted) :
    items.Perm others := by
  rw [List.perm_ext_iff_of_nodup (hitems.of_map key) (hothers.of_map key)]
  intro item
  have hfound : lookup? key items (key item) = some item ↔
      lookup? key others (key item) = some item := by
    rw [hsame]
  rw [lookup?_eq_some_iff hitems, lookup?_eq_some_iff hothers] at hfound
  simpa using hfound

theorem eq_filterMap_lookup? {items : List α} (hnodup : (items.map key).Nodup) :
    items = (items.map key).filterMap (lookup? key items) := by
  have hfound : ∀ item ∈ items, (lookup? key items ∘ key) item = some item :=
    fun item hmem => (lookup?_eq_some_iff hnodup).mpr ⟨hmem, rfl⟩
  rw [List.filterMap_map, List.filterMap_congr hfound, List.filterMap_some]

/-- Leaving out items of some keys does not change what is found for the others. -/
theorem lookup?_filter (key : α → κ) (items : List α) (keeps : κ → Bool) (wanted : κ) :
    lookup? key (items.filter fun item => keeps (key item)) wanted =
      if keeps wanted then lookup? key items wanted else none := by
  induction items with
  | nil => simp [lookup?]
  | cons other rest ih =>
      rw [List.filter_cons, lookup?_cons]
      by_cases hkey : key other = wanted
      · subst hkey
        cases hkeeps : keeps (key other) with
        | true => simp [lookup?_cons]
        | false => simpa [hkeeps] using ih
      · cases hother : keeps (key other) with
        | true => simp only [lookup?_cons, hkey, if_true, if_false, ih]
        | false => simp only [Bool.false_eq_true, hkey, if_false, ih]

/-! Putting -/

theorem put_of_not_mem {item : α} {items : List α} (hfresh : key item ∉ items.map key) :
    put key join item items = items ++ [item] := by
  induction items with
  | nil => rfl
  | cons other rest ih =>
      simp only [List.map_cons, List.mem_cons, not_or] at hfresh
      have hne : key other ≠ key item := fun heq => hfresh.1 heq.symm
      rw [put, if_neg hne, ih hfresh.2, List.cons_append]

theorem put_append_of_not_mem {item : α} {front : List α} (hfresh : key item ∉ front.map key)
    (back : List α) :
    put key join item (front ++ back) = front ++ put key join item back := by
  induction front with
  | nil => rfl
  | cons other rest ih =>
      simp only [List.map_cons, List.mem_cons, not_or] at hfresh
      have hne : key other ≠ key item := fun heq => hfresh.1 heq.symm
      rw [List.cons_append, put, if_neg hne, ih hfresh.2, List.cons_append]

theorem put_append_of_mem {item : α} {front : List α} (hmem : key item ∈ front.map key)
    (back : List α) :
    put key join item (front ++ back) = put key join item front ++ back := by
  induction front with
  | nil => simp at hmem
  | cons other rest ih =>
      by_cases hkey : key other = key item
      · simp [put, hkey]
      · have hrest : key item ∈ rest.map key := by
          rcases List.mem_cons.mp hmem with heq | hrest
          · exact False.elim (hkey heq.symm)
          · exact hrest
        simp only [List.cons_append, put, if_neg hkey, ih hrest]

/-- An item joins the first one of its key, and nothing else changes. -/
theorem put_of_lookup? (join : α → α → α) {item first : α} {items : List α}
    (hfound : lookup? key items (key item) = some first) :
    ∃ front back, items = front ++ first :: back ∧ key item ∉ front.map key ∧
      put key join item items = front ++ join first item :: back := by
  induction items with
  | nil => simp [lookup?] at hfound
  | cons other rest ih =>
      rw [lookup?_cons] at hfound
      by_cases hkey : key other = key item
      · rw [if_pos hkey] at hfound
        cases hfound
        exact ⟨[], rest, rfl, by simp, by simp [put, hkey]⟩
      · rw [if_neg hkey] at hfound
        obtain ⟨front, back, hitems, hfresh, hput⟩ := ih hfound
        refine ⟨other :: front, back, by rw [hitems, List.cons_append], ?_, ?_⟩
        · simp only [List.map_cons, List.mem_cons, not_or]
          exact ⟨fun heq => hkey heq.symm, hfresh⟩
        · rw [put, if_neg hkey, hput, List.cons_append]

theorem map_key_put (hjoin : JoinsKey key join) (item : α) (items : List α) :
    (put key join item items).map key =
      if key item ∈ items.map key then items.map key else items.map key ++ [key item] := by
  split
  · next hmem =>
      obtain ⟨first, hfirst⟩ := Option.isSome_iff_exists.mp (lookup?_isSome_iff.mpr hmem)
      obtain ⟨front, back, hitems, -, hput⟩ := put_of_lookup? join hfirst
      have hkey : key first = key item := key_of_lookup? hfirst
      rw [hput, hitems]
      simp [hjoin first item hkey, hkey]
  · next hfresh => rw [put_of_not_mem hfresh, List.map_append]; rfl

theorem nodup_put (hjoin : JoinsKey key join) (item : α) {items : List α}
    (hnodup : (items.map key).Nodup) : ((put key join item items).map key).Nodup := by
  rw [map_key_put hjoin]
  split
  · exact hnodup
  · next hfresh => simpa using List.Nodup.concat hfresh hnodup

theorem lookup?_put (hjoin : JoinsKey key join) (item : α) (items : List α) (wanted : κ) :
    lookup? key (put key join item items) wanted =
      if key item = wanted then
        some (((lookup? key items wanted).map (join · item)).getD item)
      else lookup? key items wanted := by
  induction items with
  | nil => simp [put, lookup?]
  | cons other rest ih =>
      by_cases hother : key other = key item
      · rw [put, if_pos hother, lookup?_cons, lookup?_cons, hjoin other item hother, hother]
        split <;> rfl
      · rw [put, if_neg hother, lookup?_cons, lookup?_cons, ih]
        by_cases hwanted : key other = wanted
        · have hne : key item ≠ wanted := fun heq => hother (hwanted.trans heq.symm)
          simp [hwanted, hne]
        · simp [hwanted]

/-! Putting one item after the other -/

def putAll (key : α → κ) (join : α → α → α) (start items : List α) : List α :=
  items.foldl (fun items item => put key join item items) start

@[simp] theorem putAll_nil (start : List α) : putAll key join start [] = start := rfl

@[simp] theorem putAll_cons (start : List α) (item : α) (rest : List α) :
    putAll key join start (item :: rest) = putAll key join (put key join item start) rest := rfl

theorem putAll_concat (start items : List α) (item : α) :
    putAll key join start (items ++ [item]) = put key join item (putAll key join start items) := by
  simp [putAll]

/-- Items of different keys are listed as they are put. -/
theorem putAll_of_nodup {start items : List α} (hnodup : ((start ++ items).map key).Nodup) :
    putAll key join start items = start ++ items := by
  induction items generalizing start with
  | nil => rw [putAll_nil, List.append_nil]
  | cons item rest ih =>
      have hsplit : start ++ item :: rest = (start ++ [item]) ++ rest := by simp
      have hfresh : key item ∉ start.map key := by
        rw [List.map_append, List.nodup_append] at hnodup
        exact fun hmem => hnodup.2.2 _ hmem _ List.mem_cons_self rfl
      rw [putAll_cons, put_of_not_mem hfresh, hsplit]
      exact ih (hsplit ▸ hnodup)

theorem putAll_append_of_not_mem (join : α → α → α) {front items : List α}
    (hfresh : ∀ item ∈ items, key item ∉ front.map key) (back : List α) :
    putAll key join (front ++ back) items = front ++ putAll key join back items := by
  induction items generalizing back with
  | nil => rfl
  | cons item rest ih =>
      rw [putAll_cons, putAll_cons, put_append_of_not_mem (hfresh item List.mem_cons_self)]
      exact ih (fun other hmem => hfresh other (List.mem_cons_of_mem item hmem)) _

theorem mem_map_key_put (hjoin : JoinsKey key join) (item : α) {items : List α} {wanted : κ} :
    wanted ∈ (put key join item items).map key ↔ wanted ∈ items.map key ∨ wanted = key item := by
  rw [map_key_put hjoin]
  split
  · next hmem =>
      constructor
      · exact .inl
      · rintro (hold | rfl)
        · exact hold
        · exact hmem
  · rw [List.mem_append, List.mem_singleton]

theorem mem_map_key_putAll (hjoin : JoinsKey key join) {start items : List α} {wanted : κ} :
    wanted ∈ (putAll key join start items).map key ↔
      wanted ∈ start.map key ∨ wanted ∈ items.map key := by
  induction items generalizing start with
  | nil => simp
  | cons item rest ih =>
      rw [putAll_cons, ih, mem_map_key_put hjoin, List.map_cons, List.mem_cons, or_assoc]

theorem nodup_putAll (hjoin : JoinsKey key join) {start : List α} (items : List α)
    (hnodup : (start.map key).Nodup) : ((putAll key join start items).map key).Nodup := by
  induction items generalizing start with
  | nil => exact hnodup
  | cons item rest ih => exact ih (nodup_put hjoin item hnodup)

/-- The keys are listed in the order of their first items. -/
theorem map_key_putAll [BEq κ] [LawfulBEq κ] (hjoin : JoinsKey key join) (items : List α) :
    (putAll key join [] items).map key = (items.map key).eraseDups := by
  induction items using List.reverseRecOn with
  | nil => rfl
  | append_singleton items item ih =>
      rw [putAll_concat, map_key_put hjoin, ih, List.map_append, List.map_singleton,
        List.eraseDups_append, List.removeAll, List.filter_singleton]
      by_cases hmem : key item ∈ items.map key
      · have helem : (!(items.map key).elem (key item)) = false := by simpa using hmem
        rw [if_pos (List.mem_eraseDups.mpr hmem), helem, cond_false, List.eraseDups_nil,
          List.append_nil]
      · have helem : (!(items.map key).elem (key item)) = true := by simpa using hmem
        rw [if_neg fun hdup => hmem (List.mem_eraseDups.mp hdup), helem, cond_true,
          List.eraseDups_cons, List.filter_nil, List.eraseDups_nil]

/-- The items of one key, joined from the first to the last. -/
def joined? (join : α → α → α) : List α → Option α
  | [] => none
  | first :: others => some (others.foldl join first)

theorem joined?_concat (items : List α) (item : α) :
    joined? join (items ++ [item]) = some (((joined? join items).map (join · item)).getD item) := by
  cases items with
  | nil => rfl
  | cons first others => simp [joined?]

/-- What is found for a key is made of the items of that key alone. -/
theorem lookup?_putAll (hjoin : JoinsKey key join) (items : List α) (wanted : κ) :
    lookup? key (putAll key join [] items) wanted =
      joined? join (items.filter fun item => key item = wanted) := by
  induction items using List.reverseRecOn with
  | nil => rfl
  | append_singleton items item ih =>
      rw [putAll_concat, lookup?_put hjoin, ih, List.filter_append]
      by_cases hkey : key item = wanted
      · rw [if_pos hkey, List.filter_singleton, decide_eq_true hkey, cond_true, joined?_concat]
      · rw [if_neg hkey, List.filter_singleton, decide_eq_false hkey, cond_false, List.append_nil]

/-! Items that take the place of the ones before them -/

/-- The later one of two items. -/
def latest (_ item : α) : α := item

omit [DecidableEq κ] in
theorem joinsKey_latest : JoinsKey key latest :=
  fun _ _ _ => rfl

theorem put_put_of_eq {first second : α} (hkey : key first = key second) (items : List α) :
    put key latest second (put key latest first items) = put key latest second items := by
  induction items with
  | nil => simp [put, hkey, latest]
  | cons other rest ih =>
      by_cases hother : key other = key second
      · simp [put, hkey, hother, latest]
      · simp [put, hkey, hother, ih]

/-- Items of different keys can be put in any order once one of the keys is there. -/
theorem put_put_comm {first second : α} (hkey : key first ≠ key second) {items : List α}
    (hmem : key first ∈ items.map key) :
    put key latest second (put key latest first items) =
      put key latest first (put key latest second items) := by
  induction items with
  | nil => cases hmem
  | cons other rest ih =>
      by_cases hfirst : key other = key first
      · simp [put, hfirst, hkey, latest]
      · have hrest : key first ∈ rest.map key := by
          rcases List.mem_cons.mp hmem with heq | hrest
          · exact False.elim (hfirst heq.symm)
          · exact hrest
        by_cases hsecond : key other = key second
        · have hne : key second ≠ key first := fun heq => hkey heq.symm
          simp [put, hsecond, hne, latest]
        · simp [put, hfirst, hsecond, ih hrest]

theorem putAll_put {item : α} {start : List α} (hmem : key item ∈ start.map key)
    (items : List α) :
    putAll key latest (put key latest item start) items =
      if key item ∈ items.map key then putAll key latest start items
      else put key latest item (putAll key latest start items) := by
  induction items generalizing start with
  | nil => rfl
  | cons other rest ih =>
      rw [putAll_cons, putAll_cons]
      by_cases hkey : key item = key other
      · rw [put_put_of_eq hkey, if_pos (by rw [List.map_cons, hkey]; exact List.mem_cons_self)]
      · have hstill : key item ∈ (put key latest other start).map key :=
          (mem_map_key_put joinsKey_latest other).mpr (.inl hmem)
        rw [put_put_comm hkey hmem, ih hstill]
        simp only [List.map_cons, List.mem_cons, hkey, false_or]

/-- Putting the same items once more changes nothing. -/
theorem putAll_putAll (start items : List α) :
    putAll key latest (putAll key latest start items) items = putAll key latest start items := by
  induction items generalizing start with
  | nil => rfl
  | cons item rest ih =>
      rw [putAll_cons, putAll_cons]
      have hfirst : key item ∈ (put key latest item start).map key :=
        (mem_map_key_put joinsKey_latest item).mpr (.inr rfl)
      have hmem : key item ∈ (putAll key latest (put key latest item start) rest).map key :=
        (mem_map_key_putAll joinsKey_latest).mpr (.inl hfirst)
      rw [putAll_put hmem, ih]
      split
      · rfl
      · next hlater =>
          -- the item was put before all others and none of them took its place
          have hkept := putAll_put hfirst rest
          rw [put_put_of_eq rfl, if_neg hlater] at hkept
          exact hkept.symm

theorem putAll_append_of_mem {front items : List α}
    (hknown : ∀ item ∈ items, key item ∈ front.map key) (back : List α) :
    putAll key latest (front ++ back) items = putAll key latest front items ++ back := by
  induction items generalizing front with
  | nil => rfl
  | cons item rest ih =>
      rw [putAll_cons, putAll_cons, put_append_of_mem (hknown item List.mem_cons_self)]
      apply ih
      intro other hother
      exact (mem_map_key_put joinsKey_latest item).mpr
        (.inl (hknown other (List.mem_cons_of_mem item hother)))

end CodeGraph.Keyed

namespace CodeGraph

theorem NameMap.get?_eq_some_iff {α : Type} {map : NameMap α}
    (hnodup : (map.map Prod.fst).Nodup) {name : String} {value : α} :
    map.get? name = some value ↔ (name, value) ∈ map := by
  have hfound : map.get? name = (Keyed.lookup? Prod.fst map name).map Prod.snd := rfl
  rw [hfound, Option.map_eq_some_iff]
  constructor
  · rintro ⟨entry, hentry, rfl⟩
    obtain ⟨hmem, rfl⟩ := (Keyed.lookup?_eq_some_iff hnodup).mp hentry
    exact hmem
  · intro hmem
    exact ⟨(name, value), (Keyed.lookup?_eq_some_iff hnodup).mpr ⟨hmem, rfl⟩, rfl⟩

end CodeGraph
