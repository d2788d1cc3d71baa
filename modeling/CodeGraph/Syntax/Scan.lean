import CodeGraph.Syntax.Literal
import CodeGraph.Syntax.Numeral
import CodeGraph.Syntax.Token
import CodeGraph.Text.Identifier

namespace CodeGraph.Syntax

/-! From a text to its tokens.  Replacement fields of format strings nest, so the scanner keeps
the literals and fields that are open. -/

/-- How a replacement field began: an assignment expression can only follow a lone name. -/
inductive FieldHead where
  | empty
  | name
  | other
deriving DecidableEq, Repr, Inhabited

inductive Frame where
  /-- Between the quotes of a literal. -/
  | literal (delimiter : Delimiter)
  /-- In the expression of a replacement field, with its open brackets and the lambdas outside
  of them that still lack their colon. -/
  | field (depth lambdas : Nat) (head : FieldHead)
  /-- In the format specifier of a replacement field. -/
  | spec
deriving Repr, Inhabited

structure Scan where
  place : Position
  rest : List Char
  frames : List Frame := []
deriving Repr, Inhabited

namespace Scan

def ofText (text : List Char) : Scan := { place := .origin, rest := text }

/-- Characters that separate tokens; the last three have no width. -/
def isBlank (c : Char) : Bool :=
  (9 ≤ c.toNat && c.toNat ≤ 13) || c == ' ' || c == '\u200b' || c == '\u2060' || c == '\ufeff'

def symbols : List (List Char) :=
  ["<<=", ">>=", "**=", "//=", "...", "<<", ">>", "**", "//", "<=", ">=", "==", "!=", "<>", "->",
    ":=", "+=", "-=", "*=", "/=", "%=", "&=", "|=", "^=", "@="].map String.toList

/-- The longest operator or delimiter the text starts with. -/
def symbolOf (text : List Char) : List Char :=
  (symbols.find? fun symbol => symbol.isPrefixOf text).getD (text.take 1)

def skipBlanks (gap : Gap) (place : Position) : List Char → Gap × Position × List Char
  | [] => (gap, place, [])
  | c :: rest =>
      if isBlank c then skipBlanks (gap.add c) (place.after c) rest
      else (gap, place, c :: rest)

/-- The line continuation the text starts with. -/
def continuation? : List Char → Option (List Char × List Char)
  | '\\' :: '\n' :: rest => some (['\\', '\n'], rest)
  | '\\' :: '\r' :: '\n' :: rest => some (['\\', '\r', '\n'], rest)
  | _ => none

/-- Moves past blanks, comments and line continuations.  Gives the comments and continuations in
reverse, and the blanks after the last of them. -/
def skipExtras : Nat → List Extra → Position → List Char →
    List Extra × Gap × Position × List Char
  | 0, done, place, text => (done, {}, place, text)
  | fuel + 1, done, place, text =>
      let (gap, start, rest) := skipBlanks {} place text
      let found : Option (Bool × List Char × List Char) :=
        match rest with
        | '#' :: _ =>
            let (comment, after) := rest.span (· != '\n')
            some (true, comment, after)
        | _ => (continuation? rest).map fun (mark, after) => (false, mark, after)
      match found with
      | some (isComment, taken, after) =>
          let stop := start.afterAll taken
          let extra : Extra := { gap, isComment, text := String.ofList taken, start, stop }
          skipExtras fuel (extra :: done) stop after
      | none => (done, gap, start, rest)

/-- What a word or symbol does to the replacement field it stands in. -/
def stepField (lexeme : Lexeme) (text : List Char) : List Frame → List Frame
  | .field depth lambdas head :: frames =>
      let isOpening := lexeme == .symbol && [['('], ['['], ['\x7b']].contains text
      let isClosing := lexeme == .symbol && [[')'], [']'], ['\x7d']].contains text
      let depth' := if isOpening then depth + 1 else if isClosing then depth - 1 else depth
      let lambdas' :=
        if depth == 0 && lexeme == .word && text == "lambda".toList then lambdas + 1
        else if depth == 0 && lexeme == .symbol && text == [':'] then lambdas - 1
        else lambdas
      let head' :=
        if head == .empty && lexeme == .word then FieldHead.name else FieldHead.other
      .field depth' lambdas' head' :: frames
  | frames => frames

/-- The lexeme at the start of a text that is not blank, outside of literals. -/
def lexemeOf (frames : List Frame) (text : List Char) :
    Lexeme × List Char × List Char × List Frame :=
  let plain (lexeme : Lexeme) (taken rest : List Char) :=
    (lexeme, taken, rest, stepField lexeme taken frames)
  match text with
  | [] => (.finish, [], [], frames)
  | c :: rest =>
      if Text.startsIdentifier c then
        let (word, after) := text.span Text.continuesIdentifier
        match if word.all Delimiter.isFlag then Delimiter.ofFlags word after else none with
        | some (delimiter, opening, after) =>
            (.stringStart, opening, after, .literal delimiter :: stepField .stringStart [] frames)
        | none =>
            match after with
            | '*' :: after' =>
                if word == "except".toList then plain .symbol (word ++ ['*']) after'
                else plain .word word after
            | _ => plain .word word after
      else if Delimiter.isQuote c then
        match Delimiter.ofFlags [] text with
        | some (delimiter, opening, after) =>
            (.stringStart, opening, after, .literal delimiter :: stepField .stringStart [] frames)
        | none => plain .symbol [c] rest
      else if Numeral.starts text then
        let (isFloat, numeral, after) := Numeral.split text
        plain (if isFloat then .float else .integer) numeral after
      else
        let symbol := symbolOf text
        let after := text.drop symbol.length
        match frames with
        | .field 0 lambdas head :: outer =>
            if c == '\x7d' then (.fieldEnd, [c], rest, outer)
            else if c == ':' && lambdas == 0 && !(symbol == [':', '='] && head == .name) then
              (.specStart, [c], rest, .spec :: outer)
            else
              match text with
              | '!' :: d :: after' =>
                  if d.isLower then (.conversion, ['!', d], after', frames)
                  else plain .symbol symbol after
              | _ => plain .symbol symbol after
        | _ => plain .symbol symbol after

/-- The lexeme at the start of a text between quotes or in a format specifier. -/
def contentOf (frames : List Frame) (text : List Char) :
    Lexeme × List Char × List Char × List Frame :=
  match frames, text with
  | .literal delimiter :: outer, text =>
      let (content, rest) := delimiter.splitContent false [] text
      if !content.isEmpty then (.stringContent, content, rest, frames)
      else if delimiter.closes text then
        (.stringEnd, delimiter.closing, text.drop delimiter.closing.length, outer)
      else
        match text with
        | c :: rest => (.fieldStart, [c], rest, .field 0 0 .empty :: frames)
        | [] => (.finish, [], [], outer)
  | .spec :: outer, c :: rest =>
      if c == '\x7b' then (.fieldStart, [c], rest, .field 0 0 .empty :: frames)
      else if c == '\x7d' then (.fieldEnd, [c], rest, outer)
      else
        let (content, after) :=
          (c :: rest).span fun d => d != '\x7b' && d != '\x7d' && d != '\n'
        (.stringContent, content, after, frames)
  | _, _ => (.finish, [], [], [])

def next (fuel : Nat) (scan : Scan) : Token × Scan :=
  let finish (extras : List Extra) (gap : Gap) (start : Position)
      (found : Lexeme × List Char × List Char × List Frame) : Token × Scan :=
    let (lexeme, taken, rest, frames) := found
    let stop := start.afterAll taken
    ({ extras, gap, lexeme, text := String.ofList taken, start, stop },
      { place := stop, rest, frames })
  match scan.frames with
  | .literal _ :: _ => finish [] {} scan.place (contentOf scan.frames scan.rest)
  | .spec :: _ =>
      match scan.rest with
      | '\n' :: _ =>
          let (gap, start, rest) := skipBlanks {} scan.place scan.rest
          finish [] gap start (contentOf scan.frames rest)
      | _ => finish [] {} scan.place (contentOf scan.frames scan.rest)
  | _ =>
      let (extras, gap, start, rest) := skipExtras fuel [] scan.place scan.rest
      finish extras.reverse gap start (lexemeOf scan.frames rest)

def collect : Nat → List Token → Scan → List Token
  | 0, done, _ => done.reverse
  | fuel + 1, done, scan =>
      let (token, scan) := scan.next (fuel + 1)
      if token.lexeme == .finish then (token :: done).reverse
      else collect fuel (token :: done) scan

end Scan

/-- The tokens of a text, the last of them its end.  Every other token takes up at least one
character, so the length of the text bounds their number. -/
def tokensOf (text : List Char) : List Token :=
  Scan.collect (text.length + 1) [] (Scan.ofText text)

end CodeGraph.Syntax
