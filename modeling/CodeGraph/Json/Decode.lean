import CodeGraph.Json.Basic

namespace CodeGraph.Json

/-! Values of a given shape out of documents.  A record is written as an object, or as an array of
its fields in order. -/

def asString? : Json → Option String
  | string text => some text
  | _ => none

def asBool? : Json → Option Bool
  | bool value => some value
  | _ => none

/-- An integer below the bound. -/
def asNatural? (bound : Nat) : Json → Option Nat
  | natural value => if value < bound then some value else none
  | _ => none

/-- Integers count as floating point numbers. -/
def asFloat? : Json → Option Float
  | float value => some value
  | natural value => some value.toUInt64.toFloat
  | negative amount => some (-amount.toUInt64.toFloat)
  | _ => none

def asList? {α : Type} (item? : Json → Option α) : Json → Option (List α)
  | array items => items.mapM item?
  | _ => none

/-- The entries of an object whose values all have the given shape. -/
def asEntries? {α : Type} (value? : Json → Option α) : Json → Option (List (String × α))
  | object entries => entries.mapM fun entry => (value? entry.2).map fun value => (entry.1, value)
  | _ => none

def asOptional? {α : Type} (value? : Json → Option α) : Json → Option (Option α)
  | null => some none
  | document => (value? document).map some

/-- A choice without further data, by its name or as an object of that name and `null`. -/
def asChoice? : Json → Option String
  | string text => some text
  | object [(key, null)] => some key
  | _ => none

/-! Records -/

/-- What a document holds for a field of a record. -/
inductive Slot where
  | given (document : Json)
  /-- Left out of an object. -/
  | absent
  /-- Left out at the end of an array. -/
  | cut
deriving Inhabited

namespace Slot

def required? {α : Type} (value? : Json → Option α) : Slot → Option α
  | given document => value? document
  | _ => none

def defaulted? {α : Type} (default : α) (value? : Json → Option α) : Slot → Option α
  | given document => value? document
  | _ => some default

/-- A field that may be `null`, and may be left out of an object. -/
def optional? {α : Type} (value? : Json → Option α) : Slot → Option (Option α)
  | given document => asOptional? value? document
  | absent => some none
  | cut => none

end Slot

/-- The one value under any of the names, unless there are several. -/
def uniqueValue? (names : List String) (entries : List (String × Json)) : Option Slot :=
  match entries.filter fun entry => names.contains entry.1 with
  | [] => some .absent
  | [(_, document)] => some (.given document)
  | _ => none

def positional : List (List String) → List Json → Option (List Slot)
  | [], [] => some []
  | [], _ :: _ => none
  | _ :: fields, [] => (positional fields []).map (.cut :: ·)
  | _ :: fields, item :: rest => (positional fields rest).map (.given item :: ·)

/-- The fields of a record, each given by its names.  Other entries of an object are passed over,
and other items of an array are not allowed. -/
def slots? (fields : List (List String)) : Json → Option (List Slot)
  | object entries => fields.mapM fun names => uniqueValue? names entries
  | array items => positional fields items
  | _ => none

end CodeGraph.Json
