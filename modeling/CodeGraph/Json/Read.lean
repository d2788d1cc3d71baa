import CodeGraph.Count
import CodeGraph.Decimal.Read
import CodeGraph.Json.Basic

namespace CodeGraph.Json

/-! Documents from text.  The reader is strict: one value, no comments, no commas too many, no
leading zeros. -/

def isSpace (c : Char) : Bool :=
  c == ' ' || c == '\n' || c == '\t' || c == '\r'

def skipSpace (text : List Char) : List Char :=
  text.dropWhile isSpace

/-! Numbers -/

def digitValue (c : Char) : Nat := c.toNat - 48

/-- As many digits as fit into 64 bits, what is left of the digits, and the text after them. -/
def significandOf (start : Nat) : List Char → Nat × List Char
  | [] => (start, [])
  | c :: rest =>
      if c.isDigit then
        let next := start * 10 + digitValue c
        if next < wordSize then significandOf next rest else (start, c :: rest)
      else (start, c :: rest)

/-- The exponent behind the letter `e`, with the text after it. -/
def exponentOf? : List Char → Option (Int × List Char)
  | text =>
      let (isNegative, text) :=
        match text with
        | '+' :: rest => (false, rest)
        | '-' :: rest => (true, rest)
        | _ => (false, text)
      let (digits, rest) := text.span Char.isDigit
      if digits.isEmpty then none
      else
        let amount := Int.ofNat (digits.foldl (fun n c => n * 10 + digitValue c) 0)
        some (if isNegative then -amount else amount, rest)

def floatValue (isNegative : Bool) (significand : Nat) (exponent : Int) : Json :=
  match Decimal.scaled? isNegative significand.toUInt64 exponent with
  | some value => float value
  | none => invalid

/-- The rest of a floating point number behind its significand so far. -/
def floatTail? (isNegative : Bool) (significand : Nat) (exponent : Int) :
    List Char → Option (Json × List Char)
  | c :: rest =>
      if c == 'e' || c == 'E' then do
        let (power, rest) ← exponentOf? rest
        pure (floatValue isNegative significand (exponent + power), rest)
      else some (floatValue isNegative significand exponent, c :: rest)
  | [] => some (floatValue isNegative significand exponent, [])

/-- The digits behind the point.  Those that do not fit into the significand are dropped. -/
def fraction? (isNegative : Bool) (significand : Nat) (exponent : Int) (text : List Char) :
    Option (Json × List Char) :=
  let (extended, rest) := significandOf significand text
  let taken := text.length - rest.length
  if taken == 0 && !(rest.head?.any Char.isDigit) then none
  else
    floatTail? isNegative extended (exponent - Int.ofNat taken) (rest.dropWhile Char.isDigit)

/-- The number of the given significand where no fraction and no exponent follow. -/
def integerValue (isNegative : Bool) (significand : Nat) : Json :=
  if !isNegative then natural significand
  else if significand = 0 ∨ significand > wordSize / 2 then
    floatValue true significand 0
  else negative significand

def number? (isNegative : Bool) (text : List Char) : Option (Json × List Char) :=
  let (significand, rest) := significandOf 0 text
  let taken := text.length - rest.length
  if taken == 0 then none
  else if taken > 1 && text.head? == some '0' then none
  else if significand == 0 && rest.head?.any Char.isDigit then none
  else
    let (dropped, rest) := rest.span Char.isDigit
    let exponent := Int.ofNat dropped.length
    match rest with
    | '.' :: rest => fraction? isNegative significand exponent rest
    | c :: after =>
        if c == 'e' || c == 'E' then floatTail? isNegative significand exponent (c :: after)
        else if dropped.isEmpty then some (integerValue isNegative significand, c :: after)
        else some (floatValue isNegative significand exponent, c :: after)
    | [] =>
        if dropped.isEmpty then some (integerValue isNegative significand, [])
        else some (floatValue isNegative significand exponent, [])

/-! Strings -/

def hexValue? (c : Char) : Option Nat :=
  if c.isDigit then some (c.toNat - 48)
  else if 'a' ≤ c ∧ c ≤ 'f' then some (c.toNat - 87)
  else if 'A' ≤ c ∧ c ≤ 'F' then some (c.toNat - 55)
  else none

def codeUnit? : List Char → Option (Nat × List Char)
  | a :: b :: c :: d :: rest => do
      let a ← hexValue? a
      let b ← hexValue? b
      let c ← hexValue? c
      let d ← hexValue? d
      pure (((a * 16 + b) * 16 + c) * 16 + d, rest)
  | _ => none

def simpleEscape? : Char → Option Char
  | '"' => some '"'
  | '\\' => some '\\'
  | '/' => some '/'
  | 'b' => some '\x08'
  | 'f' => some '\x0c'
  | 'n' => some '\n'
  | 'r' => some '\r'
  | 't' => some '\t'
  | _ => none

/-- A character, or nothing for half of a surrogate pair that stands alone. -/
def character? (unit : Nat) (rest : List Char) : Option Char × List Char :=
  if 0xD800 ≤ unit ∧ unit < 0xDC00 then
    match rest with
    | '\\' :: 'u' :: after =>
        match codeUnit? after with
        | some (low, after) =>
            if 0xDC00 ≤ low ∧ low < 0xE000 then
              (some (Char.ofNat (0x10000 + (unit - 0xD800) * 0x400 + (low - 0xDC00))), after)
            else (none, rest)
        | none => (none, rest)
    | _ => (none, rest)
  else if 0xDC00 ≤ unit ∧ unit < 0xE000 then (none, rest)
  else (some (Char.ofNat unit), rest)

/-- The string up to its closing quote; `none` inside stands for one that has no value. -/
def stringUpTo : Nat → Bool → List Char → List Char → Option (Option String × List Char)
  | 0, _, _, _ => none
  | fuel + 1, isValid, done, text =>
      match text with
      | '"' :: rest => some (if isValid then some (String.ofList done.reverse) else none, rest)
      | '\\' :: 'u' :: rest =>
          match codeUnit? rest with
          | some (unit, rest) =>
              match character? unit rest with
              | (some c, rest) => stringUpTo fuel isValid (c :: done) rest
              | (none, rest) => stringUpTo fuel false done rest
          | none => none
      | '\\' :: c :: rest =>
          match simpleEscape? c with
          | some d => stringUpTo fuel isValid (d :: done) rest
          | none => none
      | c :: rest =>
          if c.toNat < 32 || c == '\\' then none else stringUpTo fuel isValid (c :: done) rest
      | [] => none

/-! Values -/

def literal? (text : List Char) : Option (Json × List Char) :=
  if "null".toList.isPrefixOf text then some (null, text.drop 4)
  else if "true".toList.isPrefixOf text then some (bool true, text.drop 4)
  else if "false".toList.isPrefixOf text then some (bool false, text.drop 5)
  else none

mutual

/-- The value at the start of a text without leading space.  Every step takes a character, so the
length of the text is fuel enough. -/
def value? : Nat → List Char → Option (Json × List Char)
  | 0, _ => none
  | fuel + 1, text =>
      match text with
      | '"' :: rest => do
          let (content, rest) ← stringUpTo (fuel + 1) true [] rest
          pure ((content.map string).getD invalid, rest)
      | '[' :: rest =>
          match skipSpace rest with
          | ']' :: rest => some (array [], rest)
          | rest => items? fuel [] rest
      | '\x7b' :: rest =>
          match skipSpace rest with
          | '\x7d' :: rest => some (object [], rest)
          | rest => entries? fuel true [] rest
      | '-' :: rest => number? true rest
      | c :: rest => if c.isDigit then number? false (c :: rest) else literal? (c :: rest)
      | [] => none

def items? : Nat → List Json → List Char → Option (Json × List Char)
  | 0, _, _ => none
  | fuel + 1, done, text => do
      let (item, rest) ← value? fuel text
      match skipSpace rest with
      | ',' :: rest => items? fuel (item :: done) (skipSpace rest)
      | ']' :: rest => some (array (item :: done).reverse, rest)
      | _ => none

/-- An object with a key that stands for no value stands for none itself. -/
def entries? : Nat → Bool → List (String × Json) → List Char → Option (Json × List Char)
  | 0, _, _, _ => none
  | fuel + 1, areValid, done, text =>
      match text with
      | '"' :: rest => do
          let (content, rest) ← stringUpTo (fuel + 1) true [] rest
          let areValid := areValid && content.isSome
          match skipSpace rest with
          | ':' :: rest => do
              let (value, rest) ← value? fuel (skipSpace rest)
              let done := (content.getD "", value) :: done
              match skipSpace rest with
              | ',' :: rest => entries? fuel areValid done (skipSpace rest)
              | '\x7d' :: rest => some (if areValid then object done.reverse else invalid, rest)
              | _ => none
          | _ => none
      | _ => none

end

/-- The document of a text that holds one value and space around it. -/
def read? (text : String) : Option Json :=
  let characters := skipSpace text.toList
  match value? (characters.length + 1) characters with
  | some (document, rest) => if (skipSpace rest).isEmpty then some document else none
  | none => none

end CodeGraph.Json
