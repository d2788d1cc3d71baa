import CodeGraph.Names.Bases
import CodeGraph.Syntax.Parse
import CodeGraph.Text.Path

namespace CodeGraph.Names

open Syntax

/-! What is known of a whole file: its imports and its classes. -/

structure FileContext where
  imports : Imports := []
  classBases : NameMap (List String) := []
deriving DecidableEq, Repr, Inhabited

namespace FileContext

def ofTree (root : SyntaxTree) : FileContext :=
  let imports := importsOf root
  { imports, classBases := Names.classBases imports root }

/-- The context of a text; nothing is known of a text outside of the grammar. -/
def ofText (text : String) : FileContext :=
  match parse? text with
  | some root => ofTree root
  | none => {}

end FileContext

/-- The contexts already built, by the components of the file's path. -/
abbrev ContextCache := List (List (List Char) × FileContext)

namespace ContextCache

def get? (cache : ContextCache) (path : String) : Option FileContext :=
  (cache.find? fun entry => entry.1 == Text.Path.components path).map Prod.snd

/-- The context of a file.  It is built on first use, from the text in the place of a file that
cannot be read. -/
def getOrBuild (read? : String → Option String) (cache : ContextCache) (path fallback : String) :
    FileContext × ContextCache :=
  match cache.get? path with
  | some context => (context, cache)
  | none =>
      let context := FileContext.ofText ((read? path).getD fallback)
      (context, cache ++ [(Text.Path.components path, context)])

end ContextCache

end CodeGraph.Names
