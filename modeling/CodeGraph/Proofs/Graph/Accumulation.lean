import CodeGraph.Graph.Centrality
import CodeGraph.Proofs.Graph.Checked
import Mathlib.Algebra.BigOperators.Group.Finset.Basic

namespace CodeGraph

/-! Sums that are collected in an array.  Each item adds to one place what it computes from another,
and if no place is read before it is complete then the last array solves a system of equations. -/

namespace Adjacency

@[simp] theorem size_addAt {α : Type} [Add α] [NatCast α] (values : Array α) (node : Nat)
    (amount : α) : (addAt values node amount).size = values.size := by
  simp [addAt]

theorem getD_addAt_of_ne {α : Type} [Add α] [NatCast α] {values : Array α} {node other : Nat}
    (hne : node ≠ other) (amount : α) :
    (addAt values node amount).getD other ((0 : Nat) : α) =
      values.getD other ((0 : Nat) : α) := by
  rw [addAt, Array.getD_eq_getD_getElem?, Array.getElem?_setIfInBounds_ne hne,
    Array.getD_eq_getD_getElem?]

theorem getD_addAt {values : Array ℚ} {node : Nat} (hnode : node < values.size) (amount : ℚ)
    (other : Nat) :
    (addAt values node amount).getD other 0 =
      values.getD other 0 + if node = other then amount else 0 := by
  rw [addAt, Array.getD_eq_getD_getElem?, Array.getD_eq_getD_getElem?, Nat.cast_zero,
    Array.getElem?_setIfInBounds]
  by_cases hsame : node = other
  · subst hsame
    simp [hnode]
  · simp [hsame]

theorem getD_replicate_zero (size node : Nat) : (Array.replicate size (0 : ℚ)).getD node 0 = 0 := by
  rw [Array.getD_eq_getD_getElem?]
  by_cases hlt : node < size <;> simp [hlt]

section Equations

variable {ι : Type} {target origin : ι → Nat} {gain : ι → ℚ → ℚ}

/-- What an item adds to its target, computed from its origin. -/
def addItem (target origin : ι → Nat) (gain : ι → ℚ → ℚ) (values : Array ℚ) (item : ι) :
    Array ℚ :=
  addAt values (target item) (gain item (values.getD (origin item) 0))

theorem getD_foldl_addItem {items : List ι} {values : Array ℚ}
    (htarget : ∀ item ∈ items, target item < values.size)
    (hself : ∀ item ∈ items, target item ≠ origin item)
    (hordered : items.Pairwise fun earlier later => target later ≠ origin earlier) (node : Nat) :
    (items.foldl (addItem target origin gain) values).getD node 0 =
      values.getD node 0 + (items.map fun item =>
        if target item = node then
          gain item ((items.foldl (addItem target origin gain) values).getD (origin item) 0)
        else 0).sum := by
  induction items generalizing values node with
  | nil => simp
  | cons item rest ih =>
      rw [List.forall_mem_cons] at htarget hself
      rw [List.pairwise_cons] at hordered
      have hsize : (addItem target origin gain values item).size = values.size := size_addAt _ _ _
      have hrest := ih (hsize.symm ▸ htarget.2) hself.2 hordered.2
      have hvalue := getD_addAt htarget.1 (gain item (values.getD (origin item) 0))
      -- the origin of the item is not a target from here on
      have hlater : ∀ other ∈ rest, (if target other = origin item then
          gain other ((rest.foldl (addItem target origin gain)
            (addItem target origin gain values item)).getD (origin other) 0) else 0) = 0 :=
        fun other hother => if_neg (hordered.1 other hother)
      have horigin : (rest.foldl (addItem target origin gain)
          (addItem target origin gain values item)).getD (origin item) 0 =
            values.getD (origin item) 0 := by
        rw [hrest, List.map_congr_left hlater, addItem, hvalue, if_neg hself.1]
        simp
      rw [List.foldl_cons, List.map_cons, List.sum_cons, horigin, hrest node, addItem, hvalue node,
        add_assoc]

/-- The last array as a system of equations. -/
theorem getD_foldl_addItem_eq_sum [DecidableEq ι] {items : List ι} {values : Array ℚ}
    (hnodup : items.Nodup) (htarget : ∀ item ∈ items, target item < values.size)
    (hself : ∀ item ∈ items, target item ≠ origin item)
    (hordered : items.Pairwise fun earlier later => target later ≠ origin earlier) (node : Nat) :
    (items.foldl (addItem target origin gain) values).getD node 0 =
      values.getD node 0 + ∑ item ∈ items.toFinset with target item = node,
        gain item ((items.foldl (addItem target origin gain) values).getD (origin item) 0) := by
  rw [getD_foldl_addItem htarget hself hordered, Finset.sum_filter, List.sum_toFinset _ hnodup]

end Equations

/-! Runs with checked numbers -/

def checked (values : Array ℚ) : Array Checked :=
  values.map .number

theorem checked_replicate (size : Nat) (value : ℚ) :
    checked (Array.replicate size value) = Array.replicate size (.number value) :=
  Array.map_replicate

theorem getD_checked (values : Array ℚ) (node : Nat) :
    (checked values).getD node ((0 : Nat) : Checked) =
      .number (values.getD node ((0 : Nat) : ℚ)) := by
  simp [checked, Array.getD_eq_getD_getElem?]

theorem addAt_checked (values : Array ℚ) (node : Nat) (amount : ℚ) :
    addAt (checked values) node (.number amount) = checked (addAt values node amount) := by
  rw [addAt, getD_checked, Checked.number_add, addAt, checked, checked, Array.map_setIfInBounds]

/-- Two runs over the same items, the one with checked numbers. -/
theorem foldl_checked {ι : Type} {items : List ι} {next : Array ℚ → ι → Array ℚ}
    {other : Array Checked → ι → Array Checked}
    (hstep : ∀ item ∈ items, ∀ values, other (checked values) item = checked (next values item))
    (values : Array ℚ) :
    items.foldl other (checked values) = checked (items.foldl next values) := by
  induction items generalizing values with
  | nil => rfl
  | cons item rest ih =>
      rw [List.forall_mem_cons] at hstep
      rw [List.foldl_cons, hstep.1, ih hstep.2, List.foldl_cons]

end Adjacency

end CodeGraph
