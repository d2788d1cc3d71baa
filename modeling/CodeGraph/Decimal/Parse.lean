namespace CodeGraph.Decimal

/-! Doubles as they are typed. -/

def lowered (text : List Char) : List Char :=
  text.map Char.toLower

def digitsValue (digits : List Char) : Nat :=
  digits.foldl (fun n c => n * 10 + (c.toNat - 48)) 0

/-- The exponent behind an `e`; without that letter there is none. -/
def exponent? : List Char → Option Int
  | [] => some 0
  | mark :: rest =>
      if mark == 'e' || mark == 'E' then
        let (isNegative, digits) :=
          match rest with
          | '-' :: digits => (true, digits)
          | '+' :: digits => (false, digits)
          | digits => (false, digits)
        if digits.isEmpty || !digits.all Char.isDigit then none
        else
          let amount := Int.ofNat (digitsValue digits)
          some (if isNegative then -amount else amount)
      else none

/-- The nearest double to `digits * 10 ^ exponent`.  Powers that no double reaches are not
computed. -/
def nearest (digits : List Char) (exponent : Int) : Float :=
  let value := digitsValue digits
  let magnitude := exponent + Int.ofNat digits.length
  if value = 0 ∨ magnitude < -400 then 0.0
  else if magnitude > 400 + Int.ofNat digits.length then 1.0 / 0.0
  else if exponent ≥ 0 then Float.ofScientific value false exponent.toNat
  else Float.ofScientific value true (-exponent).toNat

def unsigned? (text : List Char) : Option Float :=
  if lowered text == "inf".toList || lowered text == "infinity".toList then some (1.0 / 0.0)
  else if lowered text == "nan".toList then some (0.0 / 0.0)
  else
    let (whole, rest) := text.span Char.isDigit
    let (fraction, rest) :=
      match rest with
      | '.' :: rest => rest.span Char.isDigit
      | rest => ([], rest)
    if whole.isEmpty && fraction.isEmpty then none
    else
      (exponent? rest).map fun exponent =>
        nearest (whole ++ fraction) (exponent - Int.ofNat fraction.length)

/-- A number with an optional sign, point and exponent, or the name of one that is not finite. -/
def parse? (text : String) : Option Float :=
  match text.toList with
  | '-' :: rest => (unsigned? rest).map fun x => -x
  | '+' :: rest => unsigned? rest
  | rest => unsigned? rest

/-- A count below the bound, with an optional plus sign. -/
def parseNatural? (bound : Nat) (text : String) : Option Nat :=
  let digits :=
    match text.toList with
    | '+' :: rest => rest
    | rest => rest
  if digits.isEmpty || !digits.all Char.isDigit then none
  else if digitsValue digits < bound then some (digitsValue digits)
  else none

end CodeGraph.Decimal
