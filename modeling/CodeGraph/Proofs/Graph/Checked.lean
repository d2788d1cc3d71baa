import Mathlib.Algebra.Order.Field.Rat

namespace CodeGraph

/-! Exact numbers that remember a division by zero. -/

/-- A rational number, or what comes of a division by zero and of all that is computed from it. -/
inductive Checked where
  | number (value : ℚ)
  | fault
deriving DecidableEq, Repr

namespace Checked

def lift (operation : ℚ → ℚ → ℚ) : Checked → Checked → Checked
  | number a, number b => number (operation a b)
  | _, _ => fault

def divide : Checked → Checked → Checked
  | number a, number b => if b = 0 then fault else number (a / b)
  | _, _ => fault

/-- What is not a number is neither smaller nor larger than anything. -/
def isLess : Checked → Checked → Bool
  | number a, number b => a < b
  | _, _ => false

instance : Add Checked := ⟨lift (· + ·)⟩

instance : Sub Checked := ⟨lift (· - ·)⟩

instance : Mul Checked := ⟨lift (· * ·)⟩

instance : Div Checked := ⟨divide⟩

instance : NatCast Checked := ⟨fun count => number count⟩

instance : LT Checked := ⟨fun a b => isLess a b = true⟩

instance : DecidableLT Checked :=
  fun a b => inferInstanceAs (Decidable (isLess a b = true))

@[simp] theorem natCast_eq (count : Nat) : (count : Checked) = number count := rfl

@[simp] theorem number_add (a b : ℚ) : number a + number b = number (a + b) := rfl

@[simp] theorem number_sub (a b : ℚ) : number a - number b = number (a - b) := rfl

@[simp] theorem number_mul (a b : ℚ) : number a * number b = number (a * b) := rfl

@[simp] theorem number_lt {a b : ℚ} : number a < number b ↔ a < b :=
  decide_eq_true_iff

theorem number_div (a : ℚ) {b : ℚ} (hb : b ≠ 0) : number a / number b = number (a / b) :=
  if_neg hb

end Checked

end CodeGraph
