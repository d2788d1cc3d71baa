namespace CodeGraph.Syntax

/-! Numerals.  A decimal numeral may carry a fraction, an exponent and one of the suffixes `L`
and `j`; numerals of another base start with `0x`, `0o` or `0b`. -/

namespace Numeral

def isDigit (c : Char) : Bool := c.isDigit || c == '_'

def isBaseDigit (base : Char) (c : Char) : Bool :=
  c == '_' ||
    match base.toLower with
    | 'x' => c.isDigit || ('a' ≤ c.toLower && c.toLower ≤ 'f')
    | 'o' => '0' ≤ c && c ≤ '7'
    | _ => c == '0' || c == '1'

/-- Takes one of the letters, if the text starts with it. -/
def suffix (letters : List Char) : List Char → List Char × List Char
  | c :: rest => if letters.contains c then ([c], rest) else ([], c :: rest)
  | [] => ([], [])

def exponent : List Char → List Char × List Char
  | e :: c :: d :: rest =>
      if (e == 'e' || e == 'E') && (c.isDigit || ((c == '+' || c == '-') && d.isDigit)) then
        let (digits, after) := (d :: rest).span isDigit
        (e :: c :: digits, after)
      else ([], e :: c :: d :: rest)
  | [e, c] => if (e == 'e' || e == 'E') && c.isDigit then ([e, c], []) else ([], [e, c])
  | text => ([], text)

def fraction : List Char → List Char × List Char
  | '.' :: c :: rest =>
      if c.isDigit then
        let (digits, after) := (c :: rest).span isDigit
        ('.' :: digits, after)
      else (['.'], c :: rest)
  | ['.'] => (['.'], [])
  | text => ([], text)

def decimal (text : List Char) : Bool × List Char × List Char :=
  let (whole, rest) := text.span isDigit
  let (part, rest) := fraction rest
  let (power, rest) := exponent rest
  let isFloat := !part.isEmpty || !power.isEmpty
  let (mark, rest) := suffix (if isFloat then ['j', 'J'] else ['l', 'L', 'j', 'J']) rest
  (isFloat, whole ++ part ++ power ++ mark, rest)

/-- Splits a text that starts with a digit, or with a point and a digit, after its numeral, and
tells whether that is a floating point one. -/
def split : List Char → Bool × List Char × List Char
  | '0' :: base :: c :: rest =>
      if ['x', 'X', 'o', 'O', 'b', 'B'].contains base && isBaseDigit base c then
        let (digits, after) := (c :: rest).span (isBaseDigit base)
        let (mark, after) := suffix ['l', 'L'] after
        (false, '0' :: base :: digits ++ mark, after)
      else decimal ('0' :: base :: c :: rest)
  | text => decimal text

/-- The text starts with a numeral. -/
def starts : List Char → Bool
  | '.' :: c :: _ => c.isDigit
  | c :: _ => c.isDigit
  | [] => false

end Numeral

end CodeGraph.Syntax
