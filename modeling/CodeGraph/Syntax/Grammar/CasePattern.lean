import CodeGraph.Syntax.Grammar.Expression

namespace CodeGraph.Syntax

/-! Patterns of case clauses. -/

namespace Rule

variable (derive : Derive)

def casePattern : Rule Piece := do
  match ← derive .casePattern with
  | [piece] => pure piece
  | _ => failure

def dottedName (inside : Bool) : Rule Piece := do
  let first ← anyName
  let rest ← many do
    check (← nextIsSymbol inside ".")
    pure [← symbol ".", ← anyName]
  node .dottedName (first :: rest)

def number : Rule Piece := lexeme .integer .integer <|> lexeme .float .float

/-- A number with its sign, or the sum of a real and an imaginary one. -/
def numberPattern : Rule (List Piece) := do
  let sign ← optionalSymbol true "-"
  let first ← number
  let token ← peek
  if token.isSymbol "+" || token.isSymbol "-" then
    let operator ← take .token
    pure [← node .complexPattern (sign ++ [first, operator, ← number])]
  else pure (sign ++ [first])

def dictPatternItem : Rule (List Piece) := do
  let token ← peek
  if token.isSymbol "**" || token.isSymbol "*" then
    let star ← take .token
    pure [← node .splatPattern [star, ← anyName]]
  else
    let key ← casePattern derive
    let colon ← symbol ":"
    pure [key, colon, ← casePattern derive]

def dictPattern : Rule Piece := do
  let opening ← symbol "\x7b"
  let items ← many do
    let item ← dictPatternItem derive
    pure (item ++ (← optionalSymbol true ","))
  node .dictPattern (opening :: items ++ [← symbol "\x7d"])

def simplePattern : Rule (List Piece) := do
  let token ← peek
  match token.lexeme with
  | .integer | .float => numberPattern
  | .stringStart => pure [← strings derive true]
  | .word =>
      match token.text with
      | "True" => pure [← take .trueLiteral]
      | "False" => pure [← take .falseLiteral]
      | "None" => pure [← take .noneLiteral]
      | _ =>
          let name ← dottedName true
          if (← peek).isSymbol "(" then
            pure [← node .classPattern (name :: (← bracketed "(" ")" (casePattern derive)))]
          else pure [name]
  | .symbol =>
      match token.text with
      | "-" => numberPattern
      | "*" | "**" =>
          let star ← take .token
          pure [← node .splatPattern [star, ← anyName]]
      | "[" => pure [← node .listPattern (← bracketed "[" "]" (casePattern derive))]
      | "(" => pure [← node .tuplePattern (← bracketed "(" ")" (casePattern derive))]
      | "\x7b" => pure [← dictPattern derive]
      | _ => failure
  | _ => failure

def unionPattern : Rule (List Piece) := do
  let first ← simplePattern derive
  let rest ← many do
    let bar ← symbol "|"
    pure (bar :: (← simplePattern derive))
  if rest.isEmpty then pure first else pure [← node .unionPattern (first ++ rest)]

def casePatternRule : Rule Piece := do
  let token ← peek
  let inner ←
    if token.lexeme == .word && (← peekSecond).isSymbol "=" then do
      let name ← anyName
      let equals ← symbol "="
      pure [← node .keywordPattern (name :: equals :: (← simplePattern derive))]
    else unionPattern derive
  let pattern ← node .casePattern inner
  if (← peek).isWord "as" then
    let word ← keyword "as"
    node .casePattern [← node .asPattern [pattern, word, ← anyName]]
  else pure pattern

end Rule

end CodeGraph.Syntax
