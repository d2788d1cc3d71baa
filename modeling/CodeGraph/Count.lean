namespace CodeGraph

/-! Counts, and the words that hold them. -/

/-- Counts in documents are below this bound. -/
def wordSize : Nat := 18446744073709551616

/-- Weights of edges, and the numbers a generator draws, are below this bound. -/
def shortSize : Nat := 4294967296

def sumOf (counts : List Nat) : Nat :=
  counts.foldr (· + ·) 0

@[simp] theorem sumOf_nil : sumOf [] = 0 := rfl

@[simp] theorem sumOf_cons (count : Nat) (rest : List Nat) :
    sumOf (count :: rest) = count + sumOf rest := rfl

theorem sumOf_append (counts others : List Nat) :
    sumOf (counts ++ others) = sumOf counts + sumOf others :=
  List.sum_append_nat

theorem sumOf_perm {counts others : List Nat} (hperm : counts.Perm others) :
    sumOf counts = sumOf others :=
  hperm.sum_nat

theorem sumOf_map_add {α : Type} (first second : α → Nat) (items : List α) :
    sumOf (items.map fun item => first item + second item) =
      sumOf (items.map first) + sumOf (items.map second) := by
  induction items with
  | nil => rfl
  | cons item rest ih =>
      simp only [List.map_cons, sumOf_cons, ih]
      omega

theorem sumOf_map_le {α : Type} {first second : α → Nat} {items : List α}
    (hle : ∀ item ∈ items, first item ≤ second item) :
    sumOf (items.map first) ≤ sumOf (items.map second) := by
  induction items with
  | nil => exact Nat.le_refl 0
  | cons item rest ih =>
      simp only [List.map_cons, sumOf_cons]
      exact Nat.add_le_add (hle item List.mem_cons_self)
        (ih fun other hmem => hle other (List.mem_cons_of_mem item hmem))

theorem sumOf_map_one {α : Type} (items : List α) :
    sumOf (items.map fun _ => 1) = items.length := by
  induction items with
  | nil => rfl
  | cons item rest ih =>
      rw [List.map_cons, sumOf_cons, ih, List.length_cons, Nat.add_comm]

theorem sumOf_flatMap {α β : Type} (parts : α → List β) (count : β → Nat) (items : List α) :
    sumOf ((items.flatMap parts).map count) =
      sumOf (items.map fun item => sumOf ((parts item).map count)) := by
  induction items with
  | nil => rfl
  | cons item rest ih =>
      rw [List.flatMap_cons, List.map_append, sumOf_append, ih, List.map_cons, sumOf_cons]

theorem sumOf_comm {α β : Type} (count : α → β → Nat) (items : List α) (others : List β) :
    sumOf (items.map fun item => sumOf (others.map (count item))) =
      sumOf (others.map fun other => sumOf (items.map fun item => count item other)) := by
  induction items with
  | nil =>
      induction others with
      | nil => rfl
      | cons other rest ih => rw [List.map_cons, sumOf_cons, ← ih]; rfl
  | cons item rest ih => simp only [List.map_cons, sumOf_cons, ih, sumOf_map_add]

end CodeGraph
