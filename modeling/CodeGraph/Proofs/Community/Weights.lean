import CodeGraph.Community.Clusters
import CodeGraph.Proofs.Keyed

namespace CodeGraph

/-! Weights that are gathered by their keys.  The sum for a key is that of its entries, in whatever
order they come. -/

section Gather

variable {κ : Type} [BEq κ]

/-- The weights of the entries, joined by their keys. -/
def gather (entries : List (κ × Nat)) : List (κ × Nat) :=
  entries.foldl (fun weights entry => addWeight entry.1 entry.2 weights) []

/-- The weight of the entries whose keys are wanted. -/
def weightOn (entries : List (κ × Nat)) (wanted : κ → Bool) : Nat :=
  sumOf ((entries.filter fun entry => wanted entry.1).map Prod.snd)

section

omit [BEq κ]

@[simp] theorem weightOn_nil (wanted : κ → Bool) : weightOn [] wanted = 0 := rfl

theorem weightOn_cons (entry : κ × Nat) (rest : List (κ × Nat)) (wanted : κ → Bool) :
    weightOn (entry :: rest) wanted =
      (if wanted entry.1 then entry.2 else 0) + weightOn rest wanted := by
  cases hwanted : wanted entry.1 <;> simp [weightOn, hwanted]

theorem weightOn_append (entries others : List (κ × Nat)) (wanted : κ → Bool) :
    weightOn (entries ++ others) wanted = weightOn entries wanted + weightOn others wanted := by
  simp only [weightOn, List.filter_append, List.map_append, sumOf_append]

theorem weightOn_flatMap {β : Type} (entries : β → List (κ × Nat)) (items : List β)
    (wanted : κ → Bool) :
    weightOn (items.flatMap entries) wanted =
      sumOf (items.map fun item => weightOn (entries item) wanted) := by
  induction items with
  | nil => rfl
  | cons item rest ih => rw [List.flatMap_cons, weightOn_append, ih, List.map_cons, sumOf_cons]

theorem weightOn_perm {entries others : List (κ × Nat)} (hperm : entries.Perm others)
    (wanted : κ → Bool) : weightOn entries wanted = weightOn others wanted :=
  sumOf_perm ((hperm.filter _).map Prod.snd)

theorem weightOn_congr {entries : List (κ × Nat)} {wanted others : κ → Bool}
    (hsame : ∀ entry ∈ entries, wanted entry.1 = others entry.1) :
    weightOn entries wanted = weightOn entries others := by
  rw [weightOn, weightOn, List.filter_congr hsame]

theorem weightOn_map {ι : Type} (rename : ι → κ) (entries : List (ι × Nat)) (wanted : κ → Bool) :
    weightOn (entries.map fun entry => (rename entry.1, entry.2)) wanted =
      weightOn entries fun key => wanted (rename key) := by
  simp only [weightOn, List.filter_map, List.map_map]
  rfl

end

variable [LawfulBEq κ]

theorem weightOn_addWeight (entry : κ × Nat) (weights : List (κ × Nat)) (wanted : κ → Bool) :
    weightOn (addWeight entry.1 entry.2 weights) wanted =
      weightOn weights wanted + if wanted entry.1 then entry.2 else 0 := by
  induction weights with
  | nil => rw [addWeight, weightOn_cons, weightOn_nil, Nat.add_comm]
  | cons known rest ih =>
      rw [addWeight]
      split
      · next hsame =>
          rw [beq_iff_eq] at hsame
          rw [weightOn_cons, weightOn_cons, hsame]
          split <;> omega
      · rw [weightOn_cons, weightOn_cons, ih, Nat.add_assoc]

theorem weightOn_gather (entries : List (κ × Nat)) (wanted : κ → Bool) :
    weightOn (gather entries) wanted = weightOn entries wanted := by
  induction entries using List.reverseRecOn with
  | nil => rfl
  | append_singleton entries entry ih =>
      have hlast : gather (entries ++ [entry]) = addWeight entry.1 entry.2 (gather entries) := by
        rw [gather, List.foldl_append]
        rfl
      rw [hlast, weightOn_addWeight, ih, weightOn_append, weightOn_cons, weightOn_nil,
        Nat.add_zero]

/-- The weight of the entries of one key. -/
def weightTo (entries : List (κ × Nat)) (key : κ) : Nat :=
  weightOn entries (· == key)

theorem weightTo_eq_zero {entries : List (κ × Nat)} {key : κ}
    (hother : ∀ entry ∈ entries, entry.1 ≠ key) : weightTo entries key = 0 := by
  have hnone : entries.filter (fun entry => entry.1 == key) = [] := by
    rw [List.filter_eq_nil_iff]
    intro entry hentry
    simpa using hother entry hentry
  rw [weightTo, weightOn, hnone]
  rfl

theorem weightTo_of_nodup {weights : List (κ × Nat)} (hnodup : (weights.map Prod.fst).Nodup)
    {entry : κ × Nat} (hmem : entry ∈ weights) : weightTo weights entry.1 = entry.2 := by
  induction weights with
  | nil => cases hmem
  | cons known rest ih =>
      rw [List.map_cons, List.nodup_cons] at hnodup
      rw [weightTo, weightOn_cons]
      rcases List.mem_cons.mp hmem with rfl | hrest
      · have hnone : weightOn rest (· == entry.1) = 0 :=
          weightTo_eq_zero fun other hother hkey => hnodup.1 (hkey ▸ List.mem_map_of_mem hother)
        rw [beq_self_eq_true, if_pos rfl, hnone, Nat.add_zero]
      · have hne : (known.1 == entry.1) = false := by
          rw [beq_eq_false_iff_ne]
          exact fun hkey => hnodup.1 (hkey ▸ List.mem_map_of_mem hrest)
        rw [hne, if_neg Bool.false_ne_true, Nat.zero_add]
        exact ih hnodup.2 hrest

/-! Gathering is putting one entry after the other. -/

def joinWeights (known entry : κ × Nat) : κ × Nat :=
  (known.1, known.2 + entry.2)

omit [BEq κ] [LawfulBEq κ] in
theorem joinsKey_joinWeights : Keyed.JoinsKey (Prod.fst : κ × Nat → κ) joinWeights :=
  fun _ _ hkey => hkey

variable [DecidableEq κ]

theorem addWeight_eq_put (entry : κ × Nat) (weights : List (κ × Nat)) :
    addWeight entry.1 entry.2 weights = Keyed.put Prod.fst joinWeights entry weights := by
  induction weights with
  | nil => rfl
  | cons known rest ih =>
      rw [addWeight, Keyed.put, ih]
      by_cases hkey : known.1 = entry.1 <;> simp [hkey, joinWeights]

theorem gather_eq_putAll (entries : List (κ × Nat)) :
    gather entries = Keyed.putAll Prod.fst joinWeights [] entries := by
  simp only [gather, addWeight_eq_put, Keyed.putAll]

theorem mem_map_fst_gather {entries : List (κ × Nat)} {key : κ} :
    key ∈ (gather entries).map Prod.fst ↔ key ∈ entries.map Prod.fst := by
  rw [gather_eq_putAll, Keyed.mem_map_key_putAll joinsKey_joinWeights]
  simp

theorem nodup_map_fst_gather (entries : List (κ × Nat)) :
    ((gather entries).map Prod.fst).Nodup := by
  rw [gather_eq_putAll]
  exact Keyed.nodup_putAll joinsKey_joinWeights entries List.nodup_nil

theorem mem_gather {entries : List (κ × Nat)} {entry : κ × Nat} :
    entry ∈ gather entries ↔
      entry.1 ∈ entries.map Prod.fst ∧ entry.2 = weightTo entries entry.1 := by
  constructor
  · intro hmem
    refine ⟨mem_map_fst_gather.mp (List.mem_map_of_mem hmem), ?_⟩
    rw [← weightTo_of_nodup (nodup_map_fst_gather entries) hmem, weightTo, weightOn_gather,
      weightTo]
  · rintro ⟨hkey, hweight⟩
    obtain ⟨found, hfound, hsame⟩ := List.mem_map.mp (mem_map_fst_gather.mpr hkey)
    have hfoundWeight := weightTo_of_nodup (nodup_map_fst_gather entries) hfound
    rw [weightTo, weightOn_gather, hsame, ← weightTo, ← hweight] at hfoundWeight
    have heq : found = entry := Prod.ext hsame hfoundWeight.symm
    exact heq ▸ hfound

theorem gather_perm {entries others : List (κ × Nat)} (hperm : entries.Perm others) :
    (gather entries).Perm (gather others) := by
  rw [List.perm_ext_iff_of_nodup ((nodup_map_fst_gather entries).of_map Prod.fst)
    ((nodup_map_fst_gather others).of_map Prod.fst)]
  intro entry
  rw [mem_gather, mem_gather, (hperm.map Prod.fst).mem_iff, weightTo, weightTo, weightOn_perm hperm]

end Gather

end CodeGraph
