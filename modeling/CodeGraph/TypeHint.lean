import CodeGraph.Text.Blank
import CodeGraph.Text.Letter
import CodeGraph.Text.Split

namespace CodeGraph.TypeHint

/-! The class a type hint names.  A container such as `Optional[T]` gives way to its first
argument once, a union gives its first member other than `None`, and a name in quotes or with
dots is reduced to its last part. -/

/-- Containers that stand for their first argument. -/
def peelable : List (List Char) :=
  ["Optional", "List", "Set", "Tuple", "Sequence", "Iterator", "Type", "list", "set", "tuple",
    "type"].map String.toList

/-- Names that stand for no class. -/
def unspecific : List (List Char) :=
  ["None", "Any", "object"].map String.toList

/-- What stands between the quotes around the text, if it has some. -/
def unquote? (quote : Char) : List Char → Option (List Char)
  | first :: rest =>
      if first = quote ∧ rest.getLast? = some quote then some (Text.trim rest.dropLast) else none
  | [] => none

/-- The text without blanks around it, and without one pair of quotes. -/
def stripQuotes (text : List Char) : List Char :=
  let text := Text.trim text
  ((unquote? '"' text).orElse fun _ => unquote? '\'' text).getD text

/-- The parts between separators outside of brackets, without blanks around them.  An empty part
behind the last separator is left out. -/
def splitTop (separator : Char) (depth : Int) (isFirst : Bool) (done : List Char) :
    List Char → List (List Char)
  | [] =>
      let part := Text.trim done.reverse
      if part.isEmpty && !isFirst then [] else [part]
  | c :: rest =>
      if c = '[' ∨ c = '(' then splitTop separator (depth + 1) isFirst (c :: done) rest
      else if c = ']' ∨ c = ')' then splitTop separator (depth - 1) isFirst (c :: done) rest
      else if c = separator ∧ depth = 0 then
        Text.trim done.reverse :: splitTop separator 0 false [] rest
      else splitTop separator depth isFirst (c :: done) rest

def topParts (separator : Char) (text : List Char) : List (List Char) :=
  splitTop separator 0 true [] text

def isName : List Char → Bool
  | [] => false
  | c :: rest =>
      (Text.isAlphabetic c || c == '_') &&
        (c :: rest).all fun d => Text.isAlphanumeric d || d == '_'

/-- The class named by a hint without arguments and alternatives. -/
def simpleName? (text : List Char) : Option (List Char) :=
  let text := stripQuotes text
  if text.isEmpty || text.contains '[' || text.contains '|' then none
  else
    let name := Text.afterLast '.' text
    if isName name && !unspecific.contains name then some name else none

/-- The first part other than `None`. -/
def firstPresent? (parts : List (List Char)) : Option (List Char) :=
  parts.find? fun part => stripQuotes part != "None".toList

/-- A subscripted hint split into its container and the text between the outermost brackets. -/
def splitSubscript? (text : List Char) : Option (List Char × List Char) :=
  let container := Text.beforeFirst '[' text
  let inner := text.drop (container.length + 1)
  if inner.contains ']' then
    some (container, inner.take (inner.length - (Text.afterLast ']' inner).length - 1))
  else none

def classChars? (text : List Char) : Option (List Char) :=
  let text := stripQuotes text
  let members := topParts '|' text
  if members.length > 1 then (firstPresent? members).bind simpleName?
  else if !text.contains '[' then simpleName? text
  else
    match splitSubscript? text with
    | none => none
    | some (container, inner) =>
        let container := Text.afterLast '.' (Text.trim container)
        let arguments := topParts ',' inner
        if container == "Union".toList then (firstPresent? arguments).bind simpleName?
        else if peelable.contains container then arguments.head?.bind simpleName?
        else none

/-- The class that a type hint names. -/
def className? (hint : String) : Option String :=
  (classChars? hint.toList).map String.ofList

end CodeGraph.TypeHint
