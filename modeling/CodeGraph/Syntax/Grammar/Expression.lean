import CodeGraph.Syntax.Grammar.Basic
import CodeGraph.Syntax.Grammar.Target

namespace CodeGraph.Syntax

/-! Expressions.  Rules that nest take the function `derive` for the constructs inside of them;
`CodeGraph.Syntax.Parse` closes the recursion. -/

/-- The constructs that can stand inside one another. -/
inductive Goal where
  /-- An expression of operators that bind tighter than `least`; no line break ends it if
  `inside` holds. -/
  | expression (least : Nat) (inside : Bool)
  /-- A name, literal or display with the attributes, calls and subscripts behind it. -/
  | primary (inside : Bool)
  /-- A replacement field of a format string. -/
  | interpolation
  /-- A pattern of a case clause. -/
  | casePattern
  /-- The statements of one line, or one compound statement, in a block of this indentation. -/
  | statement (indent : Nat)

abbrev Derive := Goal → Rule (List Piece)

/-! Binding strength of the operators. -/

namespace Level

def conditional := 1
def asPattern := 2
def or := 3
def and := 4
def not := 5
def comparison := 6
def unary := 13

/-- The strength of a binary operator, and whether it groups to the right. -/
def binary? : String → Option (Nat × Bool)
  | "|" => some (7, false)
  | "&" => some (8, false)
  | "^" => some (9, false)
  | "<<" | ">>" => some (10, false)
  | "+" | "-" => some (11, false)
  | "*" | "@" | "/" | "%" | "//" => some (12, false)
  | "**" => some (14, true)
  | _ => none

end Level

def comparisonSymbols : List String := ["<", "<=", "==", "!=", ">=", ">", "<>"]

/-- Words that are never names in an expression. -/
def reservedWords : List String :=
  ["and", "as", "assert", "break", "class", "continue", "def", "del", "elif", "else", "except",
    "finally", "for", "from", "global", "if", "import", "in", "is", "lambda", "nonlocal", "not",
    "or", "pass", "raise", "return", "try", "while", "with", "yield"]

namespace Token

def startsPrimary (token : Token) : Bool :=
  match token.lexeme with
  | .word => !reservedWords.contains token.text
  | .integer | .float | .stringStart => true
  | .symbol => ["(", "[", "\x7b", "+", "-", "~", "*", "..."].contains token.text
  | _ => false

def startsExpression (token : Token) : Bool :=
  token.startsPrimary || token.isWord "not" || token.isWord "lambda"

end Token

namespace Rule

variable (derive : Derive)

def expression (least : Nat) (inside : Bool) : Rule Piece := do
  match ← derive (.expression least inside) with
  | [piece] => pure piece
  | _ => failure

def primary (inside : Bool) : Rule Piece := do
  match ← derive (.primary inside) with
  | [piece] => pure piece
  | _ => failure

def keywordFor : Rule (List Piece) := do
  if (← peek).isWord "async" then pure [← keyword "async", ← keyword "for"]
  else pure [← keyword "for"]

/-- One item of a list that is written without brackets, or all of them as one node. -/
def gather (kind : Kind) (pieces : List Piece) : Rule Piece := do
  match pieces with
  | [piece] => pure piece
  | _ => node kind pieces

def expressionList (inside : Bool) : Rule Piece := do
  let first ← expression derive 0 inside
  let rest ← many do
    check (← nextIsSymbol inside ",")
    let comma ← symbol ","
    check (← peek).startsExpression
    check (← continues inside)
    pure [comma, ← expression derive 0 inside]
  let comma ← optionalSymbol inside ","
  gather .expressionList (first :: rest ++ comma)

/-! Strings -/

def interpolationWith (value : Rule Piece) : Rule Piece := do
  let opening ← lexeme .fieldStart .token
  let value ← value
  let mark ← optionalSymbol true "="
  let conversion ← orNone do pure [← lexeme .conversion .typeConversion]
  let spec ← orNone do
    let colon ← lexeme .specStart .token
    let parts ← many <|
      (do pure [← lexeme .stringContent .token]) <|>
      (do pure ((← derive .interpolation).map (Piece.withKind .formatExpression)))
    pure [← node .formatSpecifier (colon :: parts)]
  let closing ← lexeme .fieldEnd .token
  node .interpolation (opening :: value :: mark ++ conversion ++ spec ++ [closing])

def stringLiteral : Rule Piece := do
  let opening ← lexeme .stringStart .stringStart
  let parts ← many <|
    (do pure [← lexeme .stringContent .stringContent]) <|> derive .interpolation
  node .string (opening :: parts ++ [← lexeme .stringEnd .stringEnd])

def strings (inside : Bool) : Rule Piece := do
  let first ← stringLiteral derive
  let rest ← many do
    check (← continues inside)
    pure [← stringLiteral derive]
  gather .concatenatedString (first :: rest)

/-! Yield expressions -/

def yieldExpression (inside : Bool) : Rule Piece := do
  let word ← keyword "yield"
  if ← nextIsWord inside "from" then
    node .yield [word, ← keyword "from", ← expression derive 0 inside]
  else if (← peek).startsExpression && (← continues inside) then
    node .yield [word, ← expressionList derive inside]
  else node .yield [word]

/-! Targets of loops -/

def target : Rule Piece := do
  let star ← optionalSymbol true "*"
  let piece ← primary derive true
  match piece.tree.asTarget? with
  | some tree =>
      let piece := { piece with tree }
      if star.isEmpty then pure piece else node .listSplatPattern (star ++ [piece])
  | none => failure

def targets : Rule Piece := do
  let items ← commaSeparated true (target derive)
  let comma ← optionalSymbol true ","
  gather .patternList (items ++ comma)

/-! Comprehensions -/

def forInClause : Rule Piece := do
  let words ← keywordFor
  let left ← targets derive
  let word ← keyword "in"
  let right ← commaSeparated true (expression derive Level.conditional true)
  let comma ← optionalSymbol true ","
  node .forInClause
    (words ++ left.withRole .left :: word :: right.map (Piece.withRole .right) ++ comma)

def ifClause (least : Nat) : Rule Piece := do
  node .ifClause [← keyword "if", ← expression derive least true]

def startsComprehension : Rule Bool := do
  let token ← peek
  if token.isWord "for" then pure true
  else if token.isWord "async" then pure ((← peekSecond).isWord "for")
  else pure false

def comprehensionClauses : Rule (List Piece) := do
  let first ← forInClause derive
  let rest ← many do
    if (← peek).isWord "if" then pure [← ifClause derive Level.conditional]
    else pure [← forInClause derive]
  pure (first :: rest)

/-! Displays -/

/-- An element of a tuple, list or set. -/
def element : Rule Piece := do
  if (← peek).isSymbol "*" then node .listSplat [← symbol "*", ← expression derive 0 true]
  else if (← peek).isWord "yield" then yieldExpression derive true
  else expression derive 0 true

def moreElements (item : Rule Piece) : Rule (List Piece) := do
  let rest ← many do
    let comma ← symbol ","
    pure [comma, ← item]
  pure (rest ++ (← optionalSymbol true ","))

def parenthesized : Rule Piece := do
  let opening ← symbol "("
  if (← peek).isSymbol ")" then node .tuple [opening, ← symbol ")"]
  else
    let first ← element derive
    if ← startsComprehension then
      let clauses ← comprehensionClauses derive
      node .generatorExpression (opening :: first :: clauses ++ [← symbol ")"])
    else
      let rest ← moreElements (element derive)
      let kind := if rest.isEmpty then Kind.parenthesizedExpression else .tuple
      node kind (opening :: first :: rest ++ [← symbol ")"])

def listDisplay : Rule Piece := do
  let opening ← symbol "["
  if (← peek).isSymbol "]" then node .list [opening, ← symbol "]"]
  else
    let first ← element derive
    if ← startsComprehension then
      let clauses ← comprehensionClauses derive
      node .listComprehension (opening :: first :: clauses ++ [← symbol "]"])
    else
      let rest ← moreElements (element derive)
      node .list (opening :: first :: rest ++ [← symbol "]"])

def pairWith (key : Piece) : Rule Piece := do
  node .pair [key, ← symbol ":", (← expression derive 0 true).withRole .value]

def dictionaryItem : Rule Piece := do
  if (← peek).isSymbol "**" then
    node .dictionarySplat [← symbol "**", ← expression derive 0 true]
  else pairWith derive (← expression derive 0 true)

def braceDisplay : Rule Piece := do
  let opening ← symbol "\x7b"
  let close (kind : Kind) (pieces : List Piece) : Rule Piece := do
    node kind (opening :: pieces ++ [← symbol "\x7d"])
  let comprehension (kind : Kind) (first : Piece) : Rule Piece := do
    close kind (first :: (← comprehensionClauses derive))
  let token ← peek
  if token.isSymbol "\x7d" then close .dictionary []
  else if token.isSymbol "," then close .dictionary [← symbol ","]
  else if token.isSymbol "**" then
    let first ← dictionaryItem derive
    close .dictionary (first :: (← moreElements (dictionaryItem derive)))
  else
    let first ← element derive
    if (← peek).isSymbol ":" then
      let first ← pairWith derive first
      if ← startsComprehension then comprehension .dictionaryComprehension first
      else close .dictionary (first :: (← moreElements (dictionaryItem derive)))
    else if ← startsComprehension then comprehension .setComprehension first
    else close .set (first :: (← moreElements (element derive)))

/-! Atoms -/

def word : Rule Piece := do
  match (← peek).text with
  | "True" => take .trueLiteral
  | "False" => take .falseLiteral
  | "None" => take .noneLiteral
  | text => if reservedWords.contains text then failure else anyName

def atom (inside : Bool) : Rule Piece := do
  let token ← peek
  match token.lexeme with
  | .word => word
  | .integer => take .integer
  | .float => take .float
  | .stringStart => strings derive inside
  | .symbol =>
      match token.text with
      | "(" => parenthesized derive
      | "[" => listDisplay derive
      | "\x7b" => braceDisplay derive
      | "..." => take .ellipsis
      | _ => failure
  | _ => failure

/-! Calls, attributes and subscripts -/

def argument : Rule Piece := do
  let token ← peek
  if token.isSymbol "*" then node .listSplat [← symbol "*", ← expression derive 0 true]
  else if token.isSymbol "**" then
    node .dictionarySplat [← symbol "**", ← expression derive 0 true]
  else if token.lexeme == .word && (← peekSecond).isSymbol "=" then
    let name ← anyName
    let equals ← symbol "="
    node .keywordArgument
      [name.withRole .name, equals, (← expression derive 0 true).withRole .value]
  else expression derive 0 true

/-- The arguments of a call, where a lone generator needs no parentheses of its own. -/
def arguments : Rule Piece := do
  let opening ← symbol "("
  if (← peek).isSymbol ")" then node .argumentList [opening, ← symbol ")"]
  else if (← peek).isSymbol "," then
    node .argumentList [opening, ← symbol ",", ← symbol ")"]
  else
    let first ← argument derive
    if ← startsComprehension then
      let clauses ← comprehensionClauses derive
      node .generatorExpression (opening :: first :: clauses ++ [← symbol ")"])
    else
      let rest ← moreElements (argument derive)
      node .argumentList (opening :: first :: rest ++ [← symbol ")"])

def slicePart : Rule (List Piece) := do
  if (← peek).startsExpression then pure [← expression derive 0 true] else pure []

def subscriptItem : Rule Piece := do
  if (← peek).isSymbol "**" then
    node .splatType [← symbol "**", ← expression derive 0 true]
  else
    let first ← slicePart derive
    if (← peek).isSymbol ":" then
      let colon ← symbol ":"
      let stop ← slicePart derive
      let step ← orNone do
        let colon ← symbol ":"
        pure (colon :: (← slicePart derive))
      node .slice (first ++ colon :: stop ++ step)
    else
      match first with
      | [piece] => pure piece
      | _ => failure

/-- What can follow a primary expression: an attribute, a call or a subscript. -/
inductive Trailer where
  | member (dot name : Piece)
  | call (arguments : Piece)
  | subscript (pieces : List Piece)

def Trailer.isCall : Trailer → Bool
  | .call _ => true
  | _ => false

def trailer? (inside : Bool) : Rule (Option Trailer) := do
  let token ← peek
  if !(← continues inside) then pure none
  else if token.isSymbol "." then
    let dot ← symbol "."
    pure (some (.member dot (← anyName)))
  else if token.isSymbol "(" then pure (some (.call (← arguments derive)))
  else if token.isSymbol "[" then
    pure (some (.subscript (← bracketed "[" "]" (subscriptItem derive))))
  else pure none

def extend (piece : Piece) : Trailer → Rule Piece
  | .member dot name => node .memberAccess [piece.withRole .object, dot, name.withRole .member]
  | .call arguments => node .call [piece.withRole .function, arguments.withRole .arguments]
  | .subscript pieces => node .subscript (piece.withRole .value :: pieces)

def trailersUpTo (inside : Bool) : Nat → List Trailer → Rule (List Trailer)
  | 0, done => pure done.reverse
  | fuel + 1, done => do
      match ← trailer? derive inside with
      | some trailer => trailersUpTo inside fuel (trailer :: done)
      | none => pure done.reverse

def trailers (inside : Bool) : Rule (List Trailer) := do
  trailersUpTo derive inside (← read).bound []

def primaryRule (inside : Bool) : Rule Piece := do
  let first ← atom derive inside
  (← trailers derive inside).foldlM extend first

/-- A splat outside of displays and argument lists.  It covers what it is written before up to the
last attribute or subscript; calls behind that are calls of the splat. -/
def splat (inside : Bool) : Rule Piece := do
  let star ← symbol "*"
  let first ← atom derive inside
  let all ← trailers derive inside
  let calls := (all.reverse.takeWhile Trailer.isCall).reverse
  let covered := all.take (all.length - calls.length)
  let splat ← node .listSplat [star, ← covered.foldlM extend first]
  calls.foldlM extend splat

/-! Operators -/

def awaits (inside : Bool) : Rule Bool := do
  if (← peek).isWord "await" then
    let second ← peekSecond
    pure (second.startsPrimary && (inside || !second.startsLine))
  else pure false

mutual

/-- An expression of binary operators that bind tighter than `least`. -/
def binaryUpTo (inside : Bool) : Nat → Nat → Rule Piece
  | 0, _ => failure
  | fuel + 1, least => do
      let token ← peek
      let first ←
        if token.lexeme == .symbol && ["+", "-", "~"].contains token.text then do
          let sign ← take .token
          node .unaryOperator [sign, ← binaryUpTo inside fuel Level.unary]
        else if token.isSymbol "*" then splat derive inside
        else if ← awaits inside then do
          let word ← keyword "await"
          node .await [word, ← binaryUpTo inside fuel Level.unary]
        else primary derive inside
      binaryTail inside fuel least first

def binaryTail (inside : Bool) : Nat → Nat → Piece → Rule Piece
  | 0, _, left => pure left
  | fuel + 1, least, left => do
      let token ← peek
      match if token.lexeme == .symbol then Level.binary? token.text else none with
      | some (level, toRight) =>
          if level > least && (← continues inside) then do
            let operator ← take .token
            let right ← binaryUpTo inside fuel (if toRight then level - 1 else level)
            let joined ← node .binaryOperator
              [left.withRole .left, operator, right.withRole .right]
            binaryTail inside fuel least joined
          else pure left
      | none => pure left

end

def binary (inside : Bool) : Rule Piece := do
  binaryUpTo derive inside (2 * (← read).bound + 2) Level.comparison

def comparisonOperator? (inside : Bool) : Rule (Option Piece) := do
  let token ← peek
  if !(← continues inside) then pure none
  else if token.lexeme == .symbol && comparisonSymbols.contains token.text then
    pure (some (← take .token))
  else if token.isWord "in" then pure (some (← keyword "in"))
  else if token.isWord "is" then
    let first ← keyword "is"
    if ← nextIsWord true "not" then pure (some (← node .token [first, ← keyword "not"]))
    else pure (some first)
  else if token.isWord "not" && (← peekSecond).isWord "in" then
    let first ← keyword "not"
    pure (some (← node .token [first, ← keyword "in"]))
  else pure none

def comparison (inside : Bool) : Rule Piece := do
  let first ← binary derive inside
  let rest ← many do
    match ← comparisonOperator? inside with
    | some operator => pure [operator, ← binary derive inside]
    | none => failure
  gather .comparisonOperator (first :: rest)

/-! Parameters and annotations -/

def typeHint (inside : Bool) : Rule Piece := do
  let token ← peek
  if token.isSymbol "*" || token.isSymbol "**" then
    let star ← take .token
    node .typeHint [← node .splatType [star, ← primary derive inside]]
  else node .typeHint [← expression derive 0 inside]

def parameterType : Rule (List Piece) := do
  pure [← symbol ":", (← typeHint derive true).withRole .type]

def parameterDefault : Rule (List Piece) := do
  pure [← symbol "=", (← expression derive 0 true).withRole .value]

/-- A parameter; only those of a definition have annotations. -/
def parameter (isTyped : Bool) : Rule Piece := do
  let typePart : Rule (List Piece) := if isTyped then orNone (parameterType derive) else pure []
  let token ← peek
  if token.isSymbol "/" then take .positionalSeparator
  else if token.isSymbol "*" && !(← peekSecond).startsPrimary then take .keywordSeparator
  else if token.isSymbol "*" || token.isSymbol "**" then
    let kind := if token.isSymbol "*" then Kind.listSplatPattern else .dictionarySplatPattern
    let star ← take .token
    let pattern ← node kind [star, ← primary derive true]
    match ← typePart with
    | [] => pure pattern
    | type => node .typedParameter (pattern :: type)
  else if token.isSymbol "(" then
    let pattern ← target derive
    match ← orNone (parameterDefault derive) with
    | [] => pure pattern
    | value => node .defaultParameter (pattern.withRole .name :: value)
  else
    let name ← anyName
    let type ← typePart
    let value ← orNone (parameterDefault derive)
    match type, value with
    | [], [] => pure name
    | [], value => node .defaultParameter (name.withRole .name :: value)
    | type, [] => node .typedParameter (name :: type)
    | type, value => node .typedDefaultParameter (name.withRole .name :: type ++ value)

def parameters : Rule Piece := do
  node .parameters (← bracketed "(" ")" (parameter derive true))

def lambdaParameters : Rule (List Piece) := do
  if (← peek).isSymbol ":" then pure []
  else
    let items ← commaSeparated true (parameter derive false)
    let comma ← optionalSymbol true ","
    pure [(← node .lambdaParameters (items ++ comma)).withRole .parameters]

/-! Whole expressions -/

/-- A lambda takes up all operators behind its body.  In a clause of a comprehension, which a
condition may follow, it leaves a conditional alone. -/
def lambda (least : Nat) (inside : Bool) : Rule Piece := do
  let word ← keyword "lambda"
  let parameters ← lambdaParameters derive
  let colon ← symbol ":"
  let bodyLeast := if least == Level.conditional then least else 0
  let body ← expression derive bodyLeast inside
  node .lambda (word :: parameters ++ [colon, body.withRole .body])

def operand (least : Nat) (inside : Bool) : Rule Piece := do
  let token ← peek
  if token.isWord "lambda" then lambda derive least inside
  else if token.isWord "not" then
    node .notOperator [← keyword "not", ← expression derive Level.not inside]
  else if token.lexeme == .word && (← peekSecond).isSymbol ":=" then
    let name ← word
    let walrus ← symbol ":="
    let value ← expression derive Level.asPattern inside
    node .namedExpression [name.withRole .name, walrus, value.withRole .value]
  else comparison derive inside

def expressionTail (least : Nat) (inside : Bool) : Nat → Piece → Rule Piece
  | 0, left => pure left
  | fuel + 1, left => do
      let token ← peek
      if token.lexeme != .word || !(← continues inside) then pure left
      else
        match token.text with
        | "and" =>
            if Level.and > least then do
              let operator ← keyword "and"
              let right ← expression derive Level.and inside
              expressionTail least inside fuel
                (← node .booleanOperator [left.withRole .left, operator, right.withRole .right])
            else pure left
        | "or" =>
            if Level.or > least then do
              let operator ← keyword "or"
              let right ← expression derive Level.or inside
              expressionTail least inside fuel
                (← node .booleanOperator [left.withRole .left, operator, right.withRole .right])
            else pure left
        | "as" =>
            if Level.asPattern > least then do
              let word ← keyword "as"
              let target ← node .asPatternTarget
                [← expression derive Level.asPattern inside]
              expressionTail least inside fuel
                (← node .asPattern [left, word, target.withRole .binding])
            else pure left
        | "if" =>
            if Level.conditional > least then do
              let first ← keyword "if"
              let condition ← expression derive 0 true
              let second ← keyword "else"
              let other ← expression derive 0 inside
              expressionTail least inside fuel
                (← node .conditionalExpression [left, first, condition, second, other])
            else pure left
        | _ => pure left

def expressionRule (least : Nat) (inside : Bool) : Rule Piece := do
  let first ← operand derive least inside
  expressionTail derive least inside (← read).bound first

/-- The expression of a replacement field. -/
def fieldValue : Rule Piece := do
  if (← peek).isWord "yield" then yieldExpression derive true else expressionList derive true

end Rule

end CodeGraph.Syntax
