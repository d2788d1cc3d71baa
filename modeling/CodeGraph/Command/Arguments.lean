import CodeGraph.Text.Split

namespace CodeGraph

/-! Options and words on a command line. -/

structure OptionSpec where
  name : String
  letter : Option Char := none
  takesValue : Bool := false
  repeats : Bool := false
deriving DecidableEq, Repr, Inhabited

/-- What was given: the options with their values, and the words between them. -/
structure Arguments where
  options : List (OptionSpec × String) := []
  words : List String := []
  /-- What was not read yet. -/
  rest : List String := []
deriving DecidableEq, Repr, Inhabited

namespace Arguments

def addOption (spec : OptionSpec) (value : String) (arguments : Arguments) : Arguments :=
  { arguments with options := (spec, value) :: arguments.options }

def addWord (word : String) (arguments : Arguments) : Arguments :=
  { arguments with words := word :: arguments.words }

/-- A word that starts with a dash is an option, but a dash alone is none. -/
def isOption (word : String) : Bool :=
  word.toList.head? == some '-' && word != "-"

/-- The options of a group of letters.  The value of the last may stand behind it, else it is the
next word. -/
inductive Group where
  | complete (options : List (OptionSpec × String))
  | pending (options : List (OptionSpec × String)) (spec : OptionSpec)
deriving Repr, Inhabited

def Group.cons (option : OptionSpec × String) : Group → Group
  | complete options => complete (option :: options)
  | pending options spec => pending (option :: options) spec

def group? (specs : List OptionSpec) : List Char → Option Group
  | [] => some (.complete [])
  | letter :: rest =>
      match specs.find? fun spec => spec.letter == some letter with
      | none => none
      | some spec =>
          if spec.takesValue then
            match rest with
            | [] => some (.pending [] spec)
            | '=' :: value => some (.complete [(spec, String.ofList value)])
            | value => some (.complete [(spec, String.ofList value)])
          else (group? specs rest).map (Group.cons (spec, ""))

/-- An option by its name, with the value behind an equals sign. -/
def named? (specs : List OptionSpec) (text : List Char) : Option Group :=
  let (name, rest) := text.span (· != '=')
  match specs.find? fun spec => spec.name.toList == name with
  | none => none
  | some spec =>
      match rest, spec.takesValue with
      | [], false => some (.complete [(spec, "")])
      | [], true => some (.pending [] spec)
      | _ :: value, true => some (.complete [(spec, String.ofList value)])
      | _ :: _, false => none

def groupOf? (specs : List OptionSpec) (word : String) : Option Group :=
  match word.toList with
  | '-' :: '-' :: text => named? specs text
  | '-' :: letters => group? specs letters
  | _ => none

/-- Reads arguments from the front, up to the first word if so wanted.  All that follows two dashes
is words. -/
def read? (specs : List OptionSpec) (stopsAtWord : Bool) : List String → Option Arguments
  | [] => some {}
  | word :: rest =>
      if word == "--" then
        if stopsAtWord then none else some { words := rest }
      else if isOption word then
        match groupOf? specs word, rest with
        | none, _ | some (.pending ..), [] => none
        | some (.complete options), rest =>
            (read? specs stopsAtWord rest).map fun arguments =>
              { arguments with options := options ++ arguments.options }
        | some (.pending options spec), value :: rest =>
            if isOption value then none
            else
              (read? specs stopsAtWord rest).map fun arguments =>
                { arguments with options := options ++ (spec, value) :: arguments.options }
      else if stopsAtWord then some { rest := word :: rest }
      else (read? specs stopsAtWord rest).map (addWord word)

/-- No option is given more often than it may be. -/
def isProper (arguments : Arguments) : Bool :=
  arguments.options.all fun entry =>
    entry.1.repeats ||
      (arguments.options.filter fun other => other.1.name == entry.1.name).length == 1

/-- The values given for an option. -/
def values (arguments : Arguments) (name : String) : List String :=
  (arguments.options.filter fun entry => entry.1.name == name).map Prod.snd

def value? (arguments : Arguments) (name : String) : Option String :=
  (arguments.values name).head?

def has (arguments : Arguments) (name : String) : Bool :=
  !(arguments.values name).isEmpty

/-- The values given for an option, each cut at its commas. -/
def pieces (arguments : Arguments) (name : String) : List String :=
  (arguments.values name).flatMap fun value =>
    (Text.splitAt ',' value.toList).map String.ofList

/-- The value of an option, which has to have the given form. -/
def decoded? {α : Type} (arguments : Arguments) (name : String) (decode? : String → Option α) :
    Option (Option α) :=
  match arguments.value? name with
  | none => some none
  | some value => (decode? value).map some

end Arguments

end CodeGraph
