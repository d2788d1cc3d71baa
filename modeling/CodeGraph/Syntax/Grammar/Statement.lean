import CodeGraph.Syntax.Grammar.CasePattern

namespace CodeGraph.Syntax

/-! Statements and the blocks they form. -/

def augmentedOperators : List String :=
  ["+=", "-=", "*=", "/=", "@=", "//=", "%=", "**=", ">>=", "<<=", "&=", "^=", "|="]

namespace Rule

variable (derive : Derive)

/-! Ends of statements -/

/-- Takes the comments at the end of the line and requires that the line ends there. -/
def lineEndUpTo : Nat → List Piece → Rule (List Piece)
  | 0, _ => failure
  | fuel + 1, done => do
      match Margin.before (← peek) with
      | some margin => if margin.breaks then pure done.reverse else failure
      | none =>
          match ← takeExtra? with
          | some piece => lineEndUpTo fuel (piece :: done)
          | none => failure

def lineEnd : Rule (List Piece) := do
  lineEndUpTo ((← peek).extras.length + 1) []

/-- The statement at hand is complete: a semicolon or a line break follows. -/
def statementEnds : Rule Unit := do
  let token ← peek
  check (token.startsLine || token.isSymbol ";")

/-! Assignments -/

def asTarget (piece : Piece) : Rule Piece := do
  match piece.tree.asTarget? with
  | some tree => pure { piece with tree }
  | none => failure

/-- The items of an unbracketed list as one assignment target. -/
def asTargets (pieces : List Piece) : Rule Piece := do
  let targets ← pieces.mapM fun piece =>
    if piece.tree.kind == .token then pure piece else asTarget piece
  gather .patternList targets

/-- Expressions with commas between them, the last comma included. -/
def expressionItems : Rule (List Piece) := do
  let first ← expression derive 0 false
  let rest ← many do
    check (← nextIsSymbol false ",")
    let comma ← symbol ","
    check (← peek).startsExpression
    check (← continues false)
    pure [comma, ← expression derive 0 false]
  pure (first :: rest ++ (← optionalSymbol false ","))

/-- What an assignment gives its target: expressions, a yield, or another assignment. -/
def assignmentUpTo : Nat → List Piece → Rule (Option Piece)
  | 0, _ => failure
  | fuel + 1, items => do
      let rightSide : Rule Piece := do
        if (← peek).isWord "yield" then yieldExpression derive false
        else
          let items ← expressionItems derive
          match ← assignmentUpTo fuel items with
          | some inner => pure inner
          | none => gather .expressionList items
      let token ← peek
      if token.lexeme != .symbol || !(← continues false) then pure none
      else if token.text == "=" then
        let left ← asTargets items
        let equals ← symbol "="
        let right ← rightSide
        pure (some (← node .assignment [left.withRole .left, equals, right.withRole .right]))
      else if token.text == ":" then
        let left ← asTargets items
        let colon ← symbol ":"
        let type ← typeHint derive false
        let value ← orNone do
          check (← nextIsSymbol false "=")
          let equals ← symbol "="
          pure [equals, (← rightSide).withRole .right]
        pure (some (← node .assignment
          (left.withRole .left :: colon :: type.withRole .type :: value)))
      else if augmentedOperators.contains token.text then
        let left ← asTargets items
        let operator ← take .token
        let right ← rightSide
        pure (some (← node .augmentedAssignment
          [left.withRole .left, operator, right.withRole .right]))
      else pure none

def expressionStatement : Rule Piece := do
  if (← peek).isWord "yield" then node .expressionStatement [← yieldExpression derive false]
  else
    let items ← expressionItems derive
    match ← assignmentUpTo derive (← read).bound items with
    | some assignment => node .expressionStatement [assignment]
    | none => node .expressionStatement items

/-! Imports -/

def importItem (inside : Bool) : Rule Piece := do
  let name ← dottedName inside
  if ← nextIsWord inside "as" then
    let word ← keyword "as"
    node .aliasedImport [name.withRole .name, word, (← anyName).withRole .binding]
  else pure name

def importItems (inside : Bool) : Rule (List Piece) := do
  let items ← commaSeparated inside do
    pure ((← importItem inside).withRole .name)
  pure (items ++ (← optionalSymbol inside ","))

def importStatement : Rule Piece := do
  let word ← keyword "import"
  node .importStatement (word :: (← importItems false))

def dots : Rule (List Piece) := do
  many ((do pure [← symbol "."]) <|> (do pure [← symbol "..."]))

def importSource : Rule Piece := do
  match ← dots with
  | [] => dottedName true
  | dots =>
      let leading ← node .importPrefix dots
      if (← peek).isWord "import" then node .relativeImport [leading]
      else node .relativeImport [leading, ← dottedName true]

def importedNames : Rule (List Piece) := do
  let token ← peek
  if token.isSymbol "(" then
    let opening ← symbol "("
    let items ← importItems true
    pure (opening :: items ++ [← symbol ")"])
  else importItems false

def importFromStatement : Rule Piece := do
  let from_ ← keyword "from"
  if (← peek).isWord "__future__" && (← peekSecond).isWord "import" then
    let source ← take .token
    let word ← keyword "import"
    node .futureImportStatement (from_ :: source :: word :: (← importedNames))
  else
    let source ← importSource
    let word ← keyword "import"
    let names ←
      if (← peek).isSymbol "*" then do pure [← take .wildcardImport] else importedNames
    node .importFromStatement (from_ :: source.withRole .moduleName :: word :: names)

/-! Other simple statements -/

/-- A print statement.  Where the word can also be a name, the name is preferred. -/
def printStatement : Rule Piece := do
  let word ← keyword "print"
  let first ←
    if (← peek).isSymbol ">>" then do
      let shift ← symbol ">>"
      node .chevron [shift, ← expression derive 0 false]
    else expression derive 0 false
  let rest ← many do
    check (← nextIsSymbol false ",")
    pure [← symbol ",", ← expression derive 0 false]
  let comma ← optionalSymbol false ","
  node .printStatement (word :: first :: rest ++ comma)

def execStatement : Rule Piece := do
  let word ← keyword "exec"
  let token ← peek
  let code ←
    if token.lexeme == .stringStart then stringLiteral derive
    else do
      check (token.lexeme == .word && !reservedWords.contains token.text)
      anyName
  let scope ← orNone do
    check (← nextIsWord false "in")
    let word ← keyword "in"
    pure (word :: (← commaSeparated false (expression derive 0 false)))
  node .execStatement (word :: code :: scope)

def typeAliasStatement : Rule Piece := do
  let word ← keyword "type"
  let left ← typeHint derive true
  let equals ← symbol "="
  let right ← typeHint derive false
  node .typeAliasStatement [word, left.withRole .left, equals, right.withRole .right]

/-- A keyword with the expressions behind it, if there are any. -/
def keywordExpressions (kind : Kind) (text : String) : Rule Piece := do
  let word ← keyword text
  if (← peek).startsExpression && (← continues false) then
    node kind [word, ← expressionList derive false]
  else node kind [word]

def raiseStatement : Rule Piece := do
  let word ← keyword "raise"
  let raised ←
    if (← peek).startsExpression && (← continues false) then do
      pure [← expressionList derive false]
    else pure []
  let cause ← orNone do
    check (← nextIsWord false "from")
    pure [← keyword "from", (← expression derive 0 false).withRole .cause]
  node .raiseStatement (word :: raised ++ cause)

def names (kind : Kind) (text : String) : Rule Piece := do
  let word ← keyword text
  node kind (word :: (← commaSeparated false anyName))

def assertStatement : Rule Piece := do
  let word ← keyword "assert"
  node .assertStatement (word :: (← commaSeparated false (expression derive 0 false)))

/-- Runs the rule and requires that the statement ends there. -/
def whole (rule : Rule Piece) : Rule Piece := do
  let piece ← rule
  statementEnds
  pure piece

def simpleStatement : Rule Piece := do
  let token ← peek
  if token.lexeme != .word then expressionStatement derive
  else
    match token.text with
    | "import" => importStatement
    | "from" => importFromStatement
    | "print" =>
        if (← peekSecond).isSymbol ">>" then printStatement derive
        else whole (expressionStatement derive) <|> printStatement derive
    | "exec" =>
        if (← peekSecond).startsLine then expressionStatement derive
        else whole (execStatement derive) <|> expressionStatement derive
    | "type" =>
        if (← peekSecond).startsLine then expressionStatement derive
        else whole (typeAliasStatement derive) <|> expressionStatement derive
    | "assert" => assertStatement derive
    | "return" => keywordExpressions derive .returnStatement "return"
    | "del" => keywordExpressions derive .deleteStatement "del"
    | "raise" => raiseStatement derive
    | "pass" => do node .passStatement [← keyword "pass"]
    | "break" => do node .breakStatement [← keyword "break"]
    | "continue" => do node .continueStatement [← keyword "continue"]
    | "global" => names .globalStatement "global"
    | "nonlocal" => names .nonlocalStatement "nonlocal"
    | _ => expressionStatement derive

/-- Simple statements up to the end of the line, with the comments before that end. -/
def simpleStatements : Rule (List Piece) := do
  let first ← simpleStatement derive
  let rest ← many do
    check (← nextIsSymbol false ";")
    let semicolon ← symbol ";"
    check (!(← peek).startsLine)
    pure [semicolon, ← simpleStatement derive]
  let semicolon ← optionalSymbol false ";"
  pure (first :: rest ++ semicolon ++ (← lineEnd))

/-! Blocks -/

/-- The statements of a block after its first.  Comments that do not close the block stay in it. -/
def statementsUpTo (indent : Nat) : Nat → List (List Piece) → Rule (List Piece)
  | 0, _ => failure
  | fuel + 1, done => do
      let token ← peek
      if token.closes indent then pure done.reverse.flatten
      else
        match ← takeExtra? with
        | some piece => statementsUpTo indent fuel ([piece] :: done)
        | none =>
            if token.lexeme == .finish then pure done.reverse.flatten
            else do
              let pieces ← derive (.statement indent)
              statementsUpTo indent fuel (pieces :: done)

def statements (indent : Nat) (first : List Piece) : Rule (List Piece) := do
  statementsUpTo derive indent (2 * (← read).bound + 2) [first]

/-- Takes the comments on the line at hand as pieces of the construct around the block. -/
def headerExtrasUpTo : Nat → List SyntaxTree → Rule (List SyntaxTree)
  | 0, done => pure done.reverse
  | fuel + 1, done => do
      match Margin.before (← peek) with
      | some _ => pure done.reverse
      | none =>
          match ← takeExtra? with
          | some piece => headerExtrasUpTo fuel (piece.tree :: done)
          | none => pure done.reverse

def headerExtras : Rule (List SyntaxTree) := do
  headerExtrasUpTo (← peek).extras.length []

/-- The body of a compound statement: an indented block, statements on the same line, or nothing
where the next line is not indented. -/
def suite (indent : Nat) : Rule Piece := do
  let extras ← headerExtras
  let token ← peek
  let block : Piece ←
    if token.startsLine then do
      match Margin.before token with
      | some margin =>
          if margin.breaks && margin.width > indent then do
            let first ← derive (.statement margin.width)
            node .block (← statements derive margin.width first)
          else if margin.breaks then emptyNode .block
          else failure
      | none => failure
    else do node .block (← simpleStatements derive)
  pure { block with extras := extras ++ block.extras }

def body (indent : Nat) : Rule (List Piece) := do
  pure [← symbol ":", (← suite derive indent).withRole .body]

/-- The next token is one of the keywords that continue a compound statement. -/
def clauseFollows (indent : Nat) (keywords : List String) : Rule Unit := do
  let token ← peek
  check (token.lexeme == .word || token.isSymbol "except*")
  check (keywords.contains token.text)
  check (token.reachedIn indent)

/-! Compound statements -/

def elseClause (indent : Nat) : Rule (List Piece) :=
  orNone do
    clauseFollows indent ["else"]
    let word ← keyword "else"
    pure [← node .elseClause (word :: (← body derive indent))]

def ifStatement (indent : Nat) : Rule Piece := do
  let word ← keyword "if"
  let condition ← expression derive 0 true
  let consequence ← body derive indent
  let clauses ← many do
    clauseFollows indent ["elif"]
    let word ← keyword "elif"
    let condition ← expression derive 0 true
    pure [← node .elifClause (word :: condition :: (← body derive indent))]
  let otherwise ← elseClause derive indent
  node .ifStatement (word :: condition :: consequence ++ clauses ++ otherwise)

def whileStatement (indent : Nat) : Rule Piece := do
  let word ← keyword "while"
  let condition ← expression derive 0 true
  let loop ← body derive indent
  node .whileStatement (word :: condition :: loop ++ (← elseClause derive indent))

def forStatement (indent : Nat) : Rule Piece := do
  let words ← keywordFor
  let left ← targets derive
  let word ← keyword "in"
  let right ← expressionList derive true
  let loop ← body derive indent
  node .forStatement
    (words ++ left.withRole .left :: word :: right.withRole .right :: loop ++
      (← elseClause derive indent))

def exceptClause (indent : Nat) : Rule (List Piece) := do
  clauseFollows indent ["except"]
  let word ← keyword "except"
  let caught ←
    if (← peek).isSymbol ":" then pure []
    else do
      let first ← expression derive 0 true
      let second ← orNone do
        pure [← symbol ",", ← expression derive 0 true]
      pure (first :: second)
  pure [← node .exceptClause (word :: caught ++ (← body derive indent))]

def exceptGroupClause (indent : Nat) : Rule (List Piece) := do
  clauseFollows indent ["except*"]
  let word ← symbol "except*"
  let caught ← expression derive 0 true
  pure [← node .exceptGroupClause (word :: caught :: (← body derive indent))]

def finallyClause (indent : Nat) : Rule (List Piece) :=
  orNone do
    clauseFollows indent ["finally"]
    let word ← keyword "finally"
    pure [← node .finallyClause (word :: (← body derive indent))]

def tryStatement (indent : Nat) : Rule Piece := do
  let word ← keyword "try"
  let tried ← body derive indent
  let clauses ← many (exceptClause derive indent <|> exceptGroupClause derive indent)
  let otherwise ← elseClause derive indent
  let last ← finallyClause derive indent
  node .tryStatement (word :: tried ++ clauses ++ otherwise ++ last)

def withItem : Rule Piece := do
  node .withItem [(← expression derive 0 true).withRole .value]

/-- The items of a with statement.  Two or more of them may share one pair of parentheses, which
is then no part of an expression. -/
def withClause : Rule Piece := do
  let shared : Rule Piece := do
    let opening ← symbol "("
    let items ← commaSeparated true (withItem derive)
    check (items.length > 1)
    let comma ← optionalSymbol true ","
    let closing ← symbol ")"
    check ((← peek).isSymbol ":")
    node .withClause (opening :: items ++ comma ++ [closing])
  let separate : Rule Piece := do
    let items ← commaSeparated true (withItem derive)
    node .withClause (items ++ (← optionalSymbol true ","))
  shared <|> separate

def withStatement (indent : Nat) : Rule Piece := do
  let async ← orNone do pure [← keyword "async"]
  let word ← keyword "with"
  let items ← withClause derive
  node .withStatement (async ++ word :: items :: (← body derive indent))

def typeParameters : Rule (List Piece) :=
  orNone do
    let item : Rule Piece := do
      let type ← typeHint derive true
      let bound ← orNone do
        pure [← symbol ":", ← typeHint derive true]
      if bound.isEmpty then pure type
      else node .typeHint [← node .constrainedType (type :: bound)]
    pure [← node .typeParameter (← bracketed "[" "]" item)]

def functionDefinition (indent : Nat) : Rule Piece := do
  let async ← orNone do pure [← keyword "async"]
  let word ← keyword "def"
  let name ← anyName
  let types ← typeParameters derive
  let parameters ← parameters derive
  let result ← orNone do
    pure [← symbol "->", (← typeHint derive true).withRole .returnType]
  node .functionDefinition
    (async ++ word :: name.withRole .name :: types ++ parameters.withRole .parameters :: result ++
      (← body derive indent))

def classDefinition (indent : Nat) : Rule Piece := do
  let word ← keyword "class"
  let name ← anyName
  let types ← typeParameters derive
  let bases ← orNone do
    check ((← peek).isSymbol "(")
    let bases ← arguments derive
    check (bases.tree.kind == .argumentList)
    pure [bases.withRole .superclasses]
  node .classDefinition
    (word :: name.withRole .name :: types ++ bases ++ (← body derive indent))

def decorator : Rule (List Piece) := do
  let sign ← symbol "@"
  let value ← expression derive 0 false
  pure [← node .decorator (sign :: value :: (← lineEnd))]

def decoratedDefinition (indent : Nat) : Rule Piece := do
  let first ← decorator derive
  let rest ← many (decorator derive)
  let definition ← classDefinition derive indent <|> functionDefinition derive indent
  node .decoratedDefinition (first ++ rest ++ [definition.withRole .definition])

def caseClause (indent : Nat) : Rule (List Piece) := do
  let word ← keyword "case"
  let patterns ← commaSeparated true (casePattern derive)
  let comma ← optionalSymbol true ","
  let guardClause ← orNone do pure [← ifClause derive 0]
  pure [← node .caseClause (word :: patterns ++ comma ++ guardClause ++ (← body derive indent))]

/-- The clauses of a match statement, and the comments between them. -/
def caseClausesUpTo (indent : Nat) : Nat → List (List Piece) → Rule (List Piece)
  | 0, _ => failure
  | fuel + 1, done => do
      let token ← peek
      if token.closes indent then pure done.reverse.flatten
      else
        match ← takeExtra? with
        | some piece => caseClausesUpTo indent fuel ([piece] :: done)
        | none => do
            let clause ← caseClause derive indent
            caseClausesUpTo indent fuel (clause :: done)

def matchStatement (indent : Nat) : Rule Piece := do
  let word ← keyword "match"
  let subjects ← commaSeparated true (expression derive 0 true)
  let comma ← optionalSymbol true ","
  let colon ← symbol ":"
  let extras ← headerExtras
  let token ← peek
  let block : Piece ←
    match Margin.before token with
    | some margin =>
        if margin.breaks && margin.width > indent then do
          let first ← caseClause derive margin.width
          node .block (← caseClausesUpTo derive margin.width (2 * (← read).bound + 2) [first])
        else if margin.breaks then emptyNode .block
        else failure
    | none => failure
  let block := { block with extras := extras ++ block.extras }
  node .matchStatement (word :: subjects ++ comma ++ [colon, block.withRole .body])

def statementRule (indent : Nat) : Rule (List Piece) := do
  let token ← peek
  let compound (rule : Rule Piece) : Rule (List Piece) := do pure [← rule]
  if token.isSymbol "@" then compound (decoratedDefinition derive indent)
  else if token.lexeme != .word then simpleStatements derive
  else
    match token.text with
    | "if" => compound (ifStatement derive indent)
    | "while" => compound (whileStatement derive indent)
    | "for" => compound (forStatement derive indent)
    | "try" => compound (tryStatement derive indent)
    | "with" => compound (withStatement derive indent)
    | "def" => compound (functionDefinition derive indent)
    | "class" => compound (classDefinition derive indent)
    | "async" =>
        match (← peekSecond).text with
        | "def" => compound (functionDefinition derive indent)
        | "for" => compound (forStatement derive indent)
        | "with" => compound (withStatement derive indent)
        | _ => simpleStatements derive
    | "match" =>
        if (← peekSecond).startsLine then simpleStatements derive
        else compound (matchStatement derive indent) <|> simpleStatements derive
    | _ => simpleStatements derive

end Rule

end CodeGraph.Syntax
