import CodeGraph.Chunk.Basic
import CodeGraph.Language
import CodeGraph.Names.Context
import CodeGraph.Reference.Basic

namespace CodeGraph

open Syntax Names

/-! The references in a chunk, read off its syntax tree from left to right. -/

/-- What the walk over a chunk needs to know about it. -/
structure Origin where
  id : String
  kind : ChunkKind
  startLine : Nat

/-- The state of the walk.  A function or method chunk reports the types in the signature of its
first function, which `signatureDue` says is still to come. -/
structure Walk where
  context : Context
  signatureDue : Bool

namespace Reference

/-- The reference made by a node, unless the target has no name. -/
def at? (origin : Origin) (tree : SyntaxTree) (relation : Relation) (isMethodCall : Bool)
    (target : String) : Option Reference :=
  if target = "" then none
  else
    some
      { source := origin.id, target, relation, line := origin.startLine + tree.start.row,
        isMethodCall }

/-! Calls -/

mutual

/-- The callee without the parentheses around it. -/
def callee? : SyntaxTree → Option SyntaxTree
  | .node kind role start stop text children =>
      if kind = .parenthesizedExpression then calleeInside? children
      else some (.node kind role start stop text children)

def calleeInside? : List SyntaxTree → Option SyntaxTree
  | [] => none
  | tree :: rest => if tree.kind.isNamed then callee? tree else calleeInside? rest

end

def isSuperCall (call : SyntaxTree) : Bool :=
  match call.part? .function with
  | some function => function.kind == .identifier && function.text == "super"
  | none => false

/-- The class behind a name: the type of the variable, or else what the name imports. -/
def ownerOf? (context : Context) (name : String) : Option String :=
  match context.typeOf? name with
  | some type => some (context.unalias type)
  | none => (context.import? name).map Imported.symbol

/-- The class that a method is called on.  `current` is the class around the call. -/
def receiverClass? (context : Context) (current : Option String) (receiver : SyntaxTree) :
    Option String :=
  match receiver.kind with
  | .identifier =>
      if receiver.text = "self" ∨ receiver.text = "cls" then
        current.orElse fun _ => ownerOf? context receiver.text
      else ownerOf? context receiver.text
  | .call =>
      if isSuperCall receiver then
        some ((current.bind context.firstBase?).getD "super")
      else none
  | .memberAccess =>
      ownerOf? context (String.ofList (Text.squeeze receiver.text.toList))
  | _ => none

def methodTarget (context : Context) (current : Option String) (receiver : SyntaxTree)
    (method : String) : String :=
  match receiverClass? context current receiver with
  | some owner => owner ++ "." ++ method
  | none => method

/-- What a call refers to, and whether it calls a method. -/
def callTarget? (context : Context) (current : Option String) (call : SyntaxTree) :
    Option (String × Bool) := do
  let function ← (call.part? .function).bind callee?
  match function.kind with
  | .identifier => some (context.unalias function.text, false)
  | .memberAccess => do
      let receiver ← function.part? .object
      let method ← function.part? .member
      some (methodTarget context current receiver method.text, true)
  | .call => some ("call_result", false)
  | .subscript => some ("subscript_result", false)
  | .lambda => some ("lambda", false)
  | _ => none

def ofCall (origin : Origin) (context : Context) (current : Option String) (call : SyntaxTree) :
    List Reference :=
  match callTarget? context current call with
  | some (target, isMethodCall) => (at? origin call .calls isMethodCall target).toList
  | none => []

/-! Exceptions -/

def exceptionName? (context : Context) (tree : SyntaxTree) : Option String :=
  match tree.kind with
  | .identifier => some (context.unalias tree.text)
  | .memberAccess => (tree.part? .member).map SyntaxTree.text
  | _ => none

def ofRaise (origin : Origin) (context : Context) (statement : SyntaxTree) : List Reference :=
  let target? : Option String := do
    let raised ← statement.firstNamed?
    if raised.kind = .call then (raised.part? .function).bind (exceptionName? context)
    else exceptionName? context raised
  (target?.bind (at? origin statement .raises false)).toList

mutual

/-- The exceptions that a clause names, one by one or in a tuple. -/
def exceptionNames (context : Context) : SyntaxTree → List String
  | .node kind role start stop text children =>
      match kind with
      | .tuple | .parenthesizedExpression | .expressionList => exceptionNamesOfAll context children
      | .asPattern => exceptionNamesOfFirst context children
      | _ => (exceptionName? context (.node kind role start stop text children)).toList

def exceptionNamesOfAll (context : Context) : List SyntaxTree → List String
  | [] => []
  | tree :: rest =>
      (if tree.kind.isNamed then exceptionNames context tree else []) ++
        exceptionNamesOfAll context rest

def exceptionNamesOfFirst (context : Context) : List SyntaxTree → List String
  | [] => []
  | tree :: rest =>
      if tree.kind.isNamed then exceptionNames context tree
      else exceptionNamesOfFirst context rest

end

def ofExcept (origin : Origin) (context : Context) (clause : SyntaxTree) : List Reference :=
  match clause.namedChildren.find? fun child => child.kind != .block && child.kind != .comment with
  | some caught => (exceptionNames context caught).filterMap (at? origin clause .catches false)
  | none => []

/-! Imports -/

/-- The second name lies below the first. -/
def isBelow (path other : String) : Bool :=
  (path ++ ".").toList.isPrefixOf other.toList

/-- The modules and symbols an import statement names.  A path is left out where the statement
also names one below it. -/
def importTargets (statement : SyntaxTree) : List String :=
  let paths := (statementBindings statement).map fun binding => binding.2.qualifiedName
  (paths.filter fun path => !paths.any (isBelow path)).eraseDups

def ofImport (origin : Origin) (statement : SyntaxTree) : List Reference :=
  (importTargets statement).filterMap (at? origin statement .imports false)

/-! Definitions -/

def ofBases (origin : Origin) (context : Context) (definition : SyntaxTree) : List Reference :=
  (baseClasses context.file.imports definition).filterMap (at? origin definition .inherits false)

/-- The classes in the signature of a function, each once: by parameter name, then the result. -/
def ofSignature (origin : Origin) (context : Context) (function : SyntaxTree) : List Reference :=
  let types := (parameterTypes function).map Prod.snd ++ (returnType? function).toList
  ((types.map context.unalias).eraseDups).filterMap (at? origin function .usesType false)

/-! The walk -/

/-- The references a node makes by itself. -/
def ofNode (origin : Origin) (context : Context) (current : Option String) (tree : SyntaxTree) :
    List Reference :=
  match tree.kind with
  | .call => ofCall origin context current tree
  | .raiseStatement => ofRaise origin context tree
  | .exceptClause | .exceptGroupClause => ofExcept origin context tree
  | .importStatement | .importFromStatement => ofImport origin tree
  | _ => []

/-- A part that the walk passes over: decorators, and in the chunk of a file the definitions on
its top level, which are chunks of their own. -/
def isSkipped (origin : Origin) (depth : Nat) : Kind → Bool
  | .decorator => true
  | .functionDefinition | .classDefinition | .decoratedDefinition =>
      depth == 1 && origin.kind == .fileLevel
  | _ => false

mutual

/-- The references of a node and below it.  `current` is the class around the node. -/
def walk (origin : Origin) (current : Option String) (depth : Nat) (state : Walk) :
    SyntaxTree → List Reference × Walk
  | .node kind role start stop text children =>
      let tree := SyntaxTree.node kind role start stop text children
      if isSkipped origin depth kind then ([], state)
      else
        match kind with
        | .classDefinition =>
            let bases := ofBases origin state.context tree
            let inside := ((tree.part? .name).map SyntaxTree.text).orElse fun _ => current
            let entered := { state with context := state.context.enterClass tree }
            let (found, state) := walkAll origin inside (depth + 1) entered children
            (bases ++ found, { state with context := state.context.exit })
        | .functionDefinition =>
            let signature :=
              if state.signatureDue then ofSignature origin state.context tree else []
            let entered :=
              { state with context := state.context.enterFunction tree, signatureDue := false }
            let (found, state) := walkAll origin current (depth + 1) entered children
            (signature ++ found, { state with context := state.context.exit })
        | _ =>
            let here := ofNode origin state.context current tree
            let (found, state) := walkAll origin current (depth + 1) state children
            (here ++ found, state)

def walkAll (origin : Origin) (current : Option String) (depth : Nat) (state : Walk) :
    List SyntaxTree → List Reference × Walk
  | [] => ([], state)
  | tree :: rest =>
      let (first, state) := walk origin current depth state tree
      let (others, state) := walkAll origin current depth state rest
      (first ++ others, state)

end

/-- The references of a chunk with the given syntax tree, in a file of the given context. -/
def ofTree (chunk : Chunk) (file : FileContext) (root : SyntaxTree) : List Reference :=
  let context := Context.ofTree file root chunk.parentName
  let origin : Origin := { id := chunk.id, kind := chunk.kind, startLine := chunk.startLine }
  let state : Walk :=
    { context, signatureDue := chunk.kind == .function || chunk.kind == .method }
  (walk origin context.enclosingClass 0 state root).1

/-- The references of a chunk, or nothing if its text is outside of the grammar.  A chunk in
another language has no references. -/
def ofChunk? (read? : String → Option String) (cache : ContextCache) (chunk : Chunk) :
    Option (List Reference) × ContextCache :=
  match Language.ofName? chunk.language with
  | none => (some [], cache)
  | some .python =>
      match parse? chunk.content with
      | none => (none, cache)
      | some root =>
          let (file, cache) := cache.getOrBuild read? chunk.path chunk.content
          (some (ofTree chunk file root), cache)

/-- The references of each chunk in turn, with one cache of file contexts for all. -/
def ofChunks (read? : String → Option String) :
    ContextCache → List Chunk → List (Option (List Reference))
  | _, [] => []
  | cache, chunk :: rest =>
      let (found, cache) := ofChunk? read? cache chunk
      found :: ofChunks read? cache rest

end Reference

end CodeGraph
