import CodeGraph.Names.FileContext
import CodeGraph.Names.Signature

namespace CodeGraph.Names

open Syntax

/-! What a name stands for at a place in a chunk.  Variable types live in scopes that are opened
and closed as definitions are entered and left. -/

inductive ScopeKind where
  | topLevel
  | classBody
  | functionBody
deriving DecidableEq, Repr, Inhabited

structure Scope where
  kind : ScopeKind
  types : Types
deriving Repr, Inhabited

/-- The open scopes are listed from the innermost to the top level. -/
structure Context where
  file : FileContext
  enclosingClass : Option String
  localBases : NameMap (List String)
  scopes : List Scope
deriving Repr, Inhabited

/-- A key such as `self.x`, which names an attribute and not a variable. -/
def isAttributeKey (key : String) : Bool :=
  "self.".toList.isPrefixOf key.toList || "cls.".toList.isPrefixOf key.toList

/-- Records types of attributes in the innermost class body. -/
def recordAttributes (types : Types) : List Scope → List Scope
  | [] => []
  | scope :: outer =>
      if scope.kind = .classBody then
        { scope with
          types := scope.types.insertAll (types.filter fun entry => isAttributeKey entry.1) } ::
          outer
      else scope :: recordAttributes types outer

namespace Context

/-- The context at the top level of a chunk.  Without a given class, `self` stands for the first
class the chunk defines. -/
def ofTree (file : FileContext) (root : SyntaxTree) (enclosing : Option String) : Context :=
  { file
    enclosingClass :=
      (enclosing.filter fun name => name != "").orElse fun _ =>
        ((root.preorder.find? fun tree => tree.kind == .classDefinition).bind fun definition =>
          definition.part? .name).map SyntaxTree.text
    localBases := classBases file.imports root
    scopes := [{ kind := .topLevel, types := assignedTypes file.imports root }] }

/-- The types of a function's scope: those of its parameters, and over them those assigned in its
body. -/
def functionTypes (imports : Imports) (function : SyntaxTree) : Types :=
  let parameters := parameterTypes function
  match function.part? .body with
  | some body => parameters.insertAll (assignedTypes imports body)
  | none => parameters

/-- Attributes assigned in the function are recorded with the class around it, for the methods
that follow. -/
def enterFunction (context : Context) (function : SyntaxTree) : Context :=
  let types := functionTypes context.file.imports function
  { context with
    scopes := { kind := .functionBody, types } :: recordAttributes types context.scopes }

def enterClass (context : Context) (definition : SyntaxTree) : Context :=
  let types :=
    match definition.part? .body with
    | some body => assignedTypes context.file.imports body
    | none => []
  { context with scopes := { kind := .classBody, types } :: context.scopes }

/-- Closes the innermost scope; the top level stays open. -/
def exit (context : Context) : Context :=
  match context.scopes with
  | _ :: outer :: rest => { context with scopes := outer :: rest }
  | _ => context

def unalias (context : Context) (name : String) : String :=
  Names.unalias context.file.imports name

def import? (context : Context) (name : String) : Option Imported :=
  context.file.imports.get? name

/-- The first base of a class, where a class of the chunk hides one of the file. -/
def firstBase? (context : Context) (name : String) : Option String :=
  ((context.localBases.get? name).orElse fun _ => context.file.classBases.get? name).bind
    List.head?

/-- The scope is visible from the ones inside of it: a class body shows its attributes only. -/
def visibleFromInside (name : String) (scope : Scope) : Bool :=
  scope.kind != .classBody || isAttributeKey name

/-- The type of a variable or attribute, from the innermost scope outward. -/
def typeOf? (context : Context) (name : String) : Option String :=
  match context.scopes with
  | [] => none
  | inner :: outer =>
      (inner.types.get? name).orElse fun _ =>
        (outer.filter (visibleFromInside name)).findSome? fun scope => scope.types.get? name

end Context

end CodeGraph.Names
