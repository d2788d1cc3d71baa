namespace CodeGraph.Decimal

/-! Doubles from decimals. -/

def powerOfTen (exponent : Nat) : Float :=
  Float.ofScientific 1 false exponent

/-- Scales by a power of ten in steps that a double can hold, so that the result is rounded at
each step.  Nothing stands for a number that is too large. -/
def scaleUpTo : Nat → Float → Int → Option Float
  | 0, x, _ => some x
  | steps + 1, x, exponent =>
      if exponent ≥ 0 then
        if exponent ≤ 308 then
          let scaled := x * powerOfTen exponent.toNat
          if scaled.isInf then none else some scaled
        else if x == 0.0 then some x
        else none
      else if exponent ≥ -308 then some (x / powerOfTen (-exponent).toNat)
      else if x == 0.0 then some x
      else scaleUpTo steps (x / powerOfTen 308) (exponent + 308)

/-- The double for `significand * 10 ^ exponent`, computed from the rounded significand.  A
quotient of two such steps is zero, so that three steps reach every result. -/
def scaled? (isNegative : Bool) (significand : UInt64) (exponent : Int) : Option Float :=
  (scaleUpTo 4 significand.toFloat exponent).map fun x => if isNegative then -x else x

end CodeGraph.Decimal
