namespace CodeGraph.Decimal

/-! Doubles as exact numbers. -/

/-- What a double stands for; a finite one is `mantissa * 2 ^ exponent` up to its sign. -/
inductive Binary where
  | nan
  | infinite (isNegative : Bool)
  | finite (isNegative : Bool) (mantissa : Nat) (exponent : Int)
deriving DecidableEq, Repr, Inhabited

def Binary.ofFloat (x : Float) : Binary :=
  let bits := x.toBits.toNat
  let isNegative := bits / Nat.pow 2 63 == 1
  let field := bits / Nat.pow 2 52 % Nat.pow 2 11
  let fraction := bits % Nat.pow 2 52
  if field = 2047 then if fraction = 0 then .infinite isNegative else .nan
  else if field = 0 then .finite isNegative fraction (-1074)
  else .finite isNegative (Nat.pow 2 52 + fraction) (Int.ofNat field - 1075)

/-- A quotient rounded to the nearest integer, a half going to the even neighbour. -/
def roundHalfEven (numerator denominator : Nat) : Nat :=
  let floor := numerator / denominator
  let twice := 2 * (numerator % denominator)
  if twice < denominator || (twice == denominator && floor % 2 == 0) then floor else floor + 1

end CodeGraph.Decimal
