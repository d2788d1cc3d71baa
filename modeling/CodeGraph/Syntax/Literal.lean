namespace CodeGraph.Syntax

/-! String literals: what opens one, and how far its content runs. -/

structure Delimiter where
  quote : Char
  isTriple : Bool := false
  isRaw : Bool := false
  isBytes : Bool := false
  isFormat : Bool := false
deriving DecidableEq, Repr, Inhabited

namespace Delimiter

def isQuote (c : Char) : Bool :=
  c == '"' || c == '\'' || c == '`'

/-- The letters that may stand before an opening quote. -/
def isFlag (c : Char) : Bool :=
  "fFrRbBuU".toList.contains c

/-- The delimiter that these flags and the quotes after them open, with the text after it.  A
back quote is never tripled. -/
def ofFlags (flags : List Char) : List Char → Option (Delimiter × List Char × List Char)
  | c :: rest =>
      if isQuote c then
        let plain : Delimiter :=
          { quote := c
            isRaw := flags.any fun f => f == 'r' || f == 'R'
            isBytes := flags.any fun f => f == 'b' || f == 'B'
            isFormat := flags.any fun f => f == 'f' || f == 'F' }
        match rest with
        | d :: e :: after =>
            if c != '`' && d == c && e == c then
              some ({ plain with isTriple := true }, flags ++ [c, c, c], after)
            else some (plain, flags ++ [c], rest)
        | _ => some (plain, flags ++ [c], rest)
      else none
  | [] => none

def closing (delimiter : Delimiter) : List Char :=
  List.replicate (if delimiter.isTriple then 3 else 1) delimiter.quote

def closes (delimiter : Delimiter) (text : List Char) : Bool :=
  delimiter.closing.isPrefixOf text

/-- A backslash before this character keeps it from ending the literal. -/
def guards (delimiter : Delimiter) (c : Char) : Bool :=
  if delimiter.isRaw then c == delimiter.quote || c == '\\' || c == '\n'
  else c == '"' || c == '\'' || c == '\\' || c == '\n'

/-- The text opens a character name such as `\N{DASH}`. -/
def opensName (delimiter : Delimiter) : List Char → Bool
  | 'N' :: '\x7b' :: c :: rest =>
      !delimiter.isRaw && !delimiter.isBytes && c != '\x7d' && rest.contains '\x7d'
  | _ => false

/-- Splits the text where the content of the literal ends: at the closing quotes, at the brace
that opens a replacement field, or at the end of the text.  `inName` holds between the braces of
a character name, and `done` is the content so far in reverse. -/
def splitContent (delimiter : Delimiter) (inName : Bool) (done : List Char) :
    List Char → List Char × List Char
  | [] => (done.reverse, [])
  | c :: rest =>
      if inName then splitContent delimiter (c != '\x7d') (c :: done) rest
      else if delimiter.closes (c :: rest) then (done.reverse, c :: rest)
      else if c == '\\' then
        if delimiter.opensName rest then splitContent delimiter true (c :: done) rest
        else
          match rest with
          | d :: after =>
              if delimiter.guards d then splitContent delimiter false (d :: c :: done) after
              else splitContent delimiter false (c :: done) (d :: after)
          | [] => ((c :: done).reverse, [])
      else if delimiter.isFormat && (c == '\x7b' || c == '\x7d') then
        match rest with
        | d :: after =>
            if d == c then splitContent delimiter false (d :: c :: done) after
            else if c == '\x7b' then (done.reverse, c :: d :: after)
            else splitContent delimiter false (c :: done) (d :: after)
        | [] => (done.reverse, [c])
      else splitContent delimiter false (c :: done) rest

end Delimiter

end CodeGraph.Syntax
