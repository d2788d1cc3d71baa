namespace CodeGraph.Syntax

/-- What a node of a concrete syntax tree stands for.  `token` is every keyword, operator and
delimiter; all other kinds are the named ones. -/
inductive Kind where
  | root
  | token
  | comment
  | lineContinuation
  -- words and literals
  | identifier
  | integer
  | float
  | trueLiteral
  | falseLiteral
  | noneLiteral
  | ellipsis
  | string
  | stringStart
  | stringContent
  | stringEnd
  | concatenatedString
  | interpolation
  | typeConversion
  | formatSpecifier
  | formatExpression
  -- expressions
  | memberAccess
  | subscript
  | slice
  | call
  | argumentList
  | keywordArgument
  | listSplat
  | dictionarySplat
  | await
  | unaryOperator
  | binaryOperator
  | comparisonOperator
  | notOperator
  | booleanOperator
  | conditionalExpression
  | lambda
  | lambdaParameters
  | namedExpression
  | asPattern
  | asPatternTarget
  | yield
  | tuple
  | list
  | set
  | dictionary
  | pair
  | listComprehension
  | setComprehension
  | dictionaryComprehension
  | generatorExpression
  | forInClause
  | ifClause
  | parenthesizedExpression
  | expressionList
  -- targets and parameters
  | tuplePattern
  | listPattern
  | patternList
  | listSplatPattern
  | dictionarySplatPattern
  | parameters
  | defaultParameter
  | typedParameter
  | typedDefaultParameter
  | keywordSeparator
  | positionalSeparator
  | typeHint
  | splatType
  | constrainedType
  | typeParameter
  -- simple statements
  | expressionStatement
  | assignment
  | augmentedAssignment
  | importStatement
  | importFromStatement
  | futureImportStatement
  | dottedName
  | aliasedImport
  | relativeImport
  | importPrefix
  | wildcardImport
  | printStatement
  | chevron
  | execStatement
  | assertStatement
  | returnStatement
  | deleteStatement
  | raiseStatement
  | passStatement
  | breakStatement
  | continueStatement
  | globalStatement
  | nonlocalStatement
  | typeAliasStatement
  -- compound statements
  | block
  | ifStatement
  | elifClause
  | elseClause
  | forStatement
  | whileStatement
  | tryStatement
  | exceptClause
  | exceptGroupClause
  | finallyClause
  | withStatement
  | withClause
  | withItem
  | functionDefinition
  | classDefinition
  | decoratedDefinition
  | decorator
  | matchStatement
  | caseClause
  -- patterns of a case clause
  | casePattern
  | unionPattern
  | classPattern
  | keywordPattern
  | splatPattern
  | dictPattern
  | complexPattern
deriving DecidableEq, Repr, Inhabited

namespace Kind

def isNamed : Kind → Bool
  | token => false
  | _ => true

/-- A definition that opens a scope of its own, decorators apart. -/
def isDefinition : Kind → Bool
  | functionDefinition | classDefinition => true
  | _ => false

end Kind

/-- The part a node plays in the node that holds it. -/
inductive Role where
  | name
  | parameters
  | returnType
  | body
  | superclasses
  | definition
  | function
  | arguments
  | object
  | member
  | value
  | left
  | right
  | type
  | binding
  | moduleName
  | cause
deriving DecidableEq, Repr, Inhabited

end CodeGraph.Syntax
