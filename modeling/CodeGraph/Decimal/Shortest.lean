import CodeGraph.Decimal.Binary

namespace CodeGraph.Decimal

/-! The fewest digits that read back to the same double. -/

/-- The decimal number `digits * 10 ^ exponent`. -/
structure Digits where
  digits : Nat
  exponent : Int
deriving DecidableEq, Repr, Inhabited

/-- The positive reals that round to a double, all over one denominator: its value, the ends of
the interval around it, and whether the ends belong to it. -/
structure Neighbourhood where
  low : Nat
  value : Nat
  high : Nat
  denominator : Nat
  isClosed : Bool

/-- Below a power of two the next double is half as far away as above it. -/
def Neighbourhood.of (mantissa : Nat) (exponent : Int) : Neighbourhood :=
  let scale := exponent - 2
  let factor := Nat.pow 2 scale.toNat
  let below := if mantissa = Nat.pow 2 52 ∧ exponent > -1074 then 1 else 2
  { low := (4 * mantissa - below) * factor
    value := 4 * mantissa * factor
    high := (4 * mantissa + 2) * factor
    denominator := Nat.pow 2 (-scale).toNat
    isClosed := mantissa % 2 == 0 }

namespace Neighbourhood

/-- The number `digits * 10 ^ exponent` over the common denominator, as a fraction. -/
def grid (hood : Neighbourhood) (digits : Nat) (exponent : Int) : Nat × Nat :=
  (digits * hood.denominator * Nat.pow 10 exponent.toNat, Nat.pow 10 (-exponent).toNat)

def contains (hood : Neighbourhood) (digits : Nat) (exponent : Int) : Bool :=
  let (numerator, denominator) := hood.grid digits exponent
  let low := hood.low * denominator
  let high := hood.high * denominator
  (low < numerator && numerator < high) ||
    (hood.isClosed && (numerator == low || numerator == high))

/-- The value in units of `10 ^ exponent`, rounded down. -/
def floorAt (hood : Neighbourhood) (exponent : Int) : Nat :=
  hood.value * Nat.pow 10 (-exponent).toNat / (hood.denominator * Nat.pow 10 exponent.toNat)

/-- Of two neighbours on a grid, whether the upper one is nearer to the value; a tie goes to the
even one. -/
def prefersUpper (hood : Neighbourhood) (floor : Nat) (exponent : Int) : Bool :=
  let (lower, denominator) := hood.grid floor exponent
  let (upper, _) := hood.grid (floor + 1) exponent
  let value := hood.value * denominator
  upper - value < value - lower || (upper - value == value - lower && floor % 2 == 1)

/-- The decimal with the given unit that reads back to the value, if there is one. -/
def at? (hood : Neighbourhood) (exponent : Int) : Option Digits :=
  let floor := hood.floorAt exponent
  match hood.contains floor exponent, hood.contains (floor + 1) exponent with
  | true, true =>
      some ⟨if hood.prefersUpper floor exponent then floor + 1 else floor, exponent⟩
  | true, false => some ⟨floor, exponent⟩
  | false, true => some ⟨floor + 1, exponent⟩
  | false, false => none

/-- Tries units of ten less each time, starting with the given one. -/
def search (hood : Neighbourhood) : Nat → Int → Digits
  | 0, exponent => ⟨hood.floorAt exponent, exponent⟩
  | steps + 1, exponent => (hood.at? exponent).getD (hood.search steps (exponent - 1))

end Neighbourhood

def Digits.stripZeros : Nat → Digits → Digits
  | 0, number => number
  | steps + 1, number =>
      if number.digits ≠ 0 ∧ number.digits % 10 = 0 then
        stripZeros steps ⟨number.digits / 10, number.exponent + 1⟩
      else number

/-- The shortest decimal that reads back to `mantissa * 2 ^ exponent`.  Seventeen digits always
do, and the search starts above the first digit. -/
def shortest (mantissa : Nat) (exponent : Int) : Digits :=
  if mantissa = 0 then ⟨0, 0⟩
  else
    let hood := Neighbourhood.of mantissa exponent
    let bits : Int := Int.ofNat (Nat.log2 mantissa) + exponent
    let start := bits * 30103 / 100000 + 1
    Digits.stripZeros 20 (hood.search 20 start)

end CodeGraph.Decimal
