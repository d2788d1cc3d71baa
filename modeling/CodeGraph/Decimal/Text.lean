import CodeGraph.Decimal.Shortest

namespace CodeGraph.Decimal

/-! Numbers as text: in plain notation, with an exponent, or with a fixed number of places. -/

def zeros (count : Nat) : String :=
  String.ofList (List.replicate count '0')

/-- Plain notation, with no point in a whole number. -/
def plain (number : Digits) : String :=
  let text := toString number.digits
  let point := Int.ofNat text.length + number.exponent
  if number.exponent ≥ 0 then text ++ zeros number.exponent.toNat
  else if point > 0 then
    String.ofList (text.toList.take point.toNat) ++ "." ++
      String.ofList (text.toList.drop point.toNat)
  else "0." ++ zeros (-point).toNat ++ text

/-- One digit before the point, and an exponent with its sign. -/
def scientific (number : Digits) : String :=
  let text := toString number.digits
  let power := Int.ofNat text.length - 1 + number.exponent
  let mantissa :=
    match text.toList with
    | first :: second :: rest => String.ofList (first :: '.' :: second :: rest)
    | short => String.ofList short
  mantissa ++ "e" ++ (if power < 0 then "-" else "+") ++ toString power.natAbs

def sign (isNegative : Bool) : String :=
  if isNegative then "-" else ""

/-- A finite number in a document: plain from `1e-5` up to below `1e16`, always with a point, and
with an exponent outside of that range. -/
def documentText? (x : Float) : Option String :=
  match Binary.ofFloat x with
  | .finite isNegative mantissa exponent =>
      let number := shortest mantissa exponent
      let power := Int.ofNat (toString number.digits).length - 1 + number.exponent
      let text :=
        if mantissa = 0 then "0.0"
        else if -5 ≤ power ∧ power < 16 then
          if number.exponent ≥ 0 then plain number ++ ".0" else plain number
        else scientific number
      some (sign isNegative ++ text)
  | _ => none

/-- A number in a message: always plain, with no point in a whole number. -/
def messageText (x : Float) : String :=
  match Binary.ofFloat x with
  | .nan => "NaN"
  | .infinite isNegative => sign isNegative ++ "inf"
  | .finite isNegative mantissa exponent => sign isNegative ++ plain (shortest mantissa exponent)

/-- The exact value rounded to the given number of places, a half going to the even neighbour. -/
def fixedText (places : Nat) (x : Float) : String :=
  match Binary.ofFloat x with
  | .nan => "NaN"
  | .infinite isNegative => sign isNegative ++ "inf"
  | .finite isNegative mantissa exponent =>
      let scaled :=
        roundHalfEven (mantissa * Nat.pow 2 exponent.toNat * Nat.pow 10 places)
          (Nat.pow 2 (-exponent).toNat)
      let text := toString scaled
      let padded := zeros (places + 1 - text.length) ++ text
      let whole := padded.toList.take (padded.length - places)
      let fraction := padded.toList.drop (padded.length - places)
      sign isNegative ++ String.ofList whole ++
        if places = 0 then "" else "." ++ String.ofList fraction

end CodeGraph.Decimal
