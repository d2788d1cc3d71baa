import CodeGraph.Decimal.Text
import CodeGraph.Json.Basic

namespace CodeGraph.Json

/-! Documents as text. -/

def hexDigit (n : Nat) : Char :=
  if n < 10 then Char.ofNat (48 + n) else Char.ofNat (87 + n)

/-- Quotes, backslashes and control characters are escaped, and nothing else. -/
def escape (c : Char) : List Char :=
  match c with
  | '"' => ['\\', '"']
  | '\\' => ['\\', '\\']
  | '\x08' => ['\\', 'b']
  | '\x0c' => ['\\', 'f']
  | '\n' => ['\\', 'n']
  | '\r' => ['\\', 'r']
  | '\t' => ['\\', 't']
  | c =>
      if c.toNat < 32 then
        ['\\', 'u', '0', '0', hexDigit (c.toNat / 16), hexDigit (c.toNat % 16)]
      else [c]

def quotedChars (text : String) : List Char :=
  '"' :: (text.toList.flatMap escape ++ ['"'])

def quoted (text : String) : String :=
  String.ofList (quotedChars text)

/-- Numbers that are not finite are written as `null`. -/
def floatText (value : Float) : String :=
  (Decimal.documentText? value).getD "null"

def lineBreak (indent : Nat) : List Char :=
  '\n' :: List.replicate (2 * indent) ' '

mutual

/-- One item or entry to a line, with two spaces of indentation for each level. -/
def pretty (indent : Nat) : Json → List Char
  | null | invalid => "null".toList
  | bool value => (if value then "true" else "false").toList
  | natural value => (toString value).toList
  | negative amount => '-' :: (toString amount).toList
  | float value => (floatText value).toList
  | string text => quotedChars text
  | array [] => ['[', ']']
  | array (item :: rest) =>
      '[' :: (lineBreak (indent + 1) ++ (pretty (indent + 1) item ++
        (prettyItems (indent + 1) rest ++ (lineBreak indent ++ [']']))))
  | object [] => ['\x7b', '\x7d']
  | object ((key, value) :: rest) =>
      '\x7b' :: (lineBreak (indent + 1) ++ (quotedChars key ++ (':' :: ' ' ::
        (pretty (indent + 1) value ++
          (prettyEntries (indent + 1) rest ++ (lineBreak indent ++ ['\x7d']))))))

def prettyItems (indent : Nat) : List Json → List Char
  | [] => []
  | item :: rest =>
      ',' :: (lineBreak indent ++ (pretty indent item ++ prettyItems indent rest))

def prettyEntries (indent : Nat) : List (String × Json) → List Char
  | [] => []
  | (key, value) :: rest =>
      ',' :: (lineBreak indent ++ (quotedChars key ++ (':' :: ' ' ::
        (pretty indent value ++ prettyEntries indent rest))))

end

def render (document : Json) : String :=
  String.ofList (document.pretty 0)

end CodeGraph.Json
