namespace CodeGraph

/-! Documents as values.  Entries of an object stand in the order they are written, repeated keys
included. -/

inductive Json where
  | null
  | bool (value : Bool)
  | natural (value : Nat)
  /-- The negative integer below zero by the given amount. -/
  | negative (amount : Nat)
  | float (value : Float)
  | string (text : String)
  | array (items : List Json)
  | object (entries : List (String × Json))
  /-- A number or string that is written correctly and stands for no value. -/
  | invalid
deriving Inhabited

namespace Json

/-! Documents can be compared. -/

mutual

def same : Json → Json → Bool
  | null, null | invalid, invalid => true
  | bool one, bool other => one == other
  | natural one, natural other | negative one, negative other => one == other
  | float one, float other => decide (one = other)
  | string one, string other => one == other
  | array one, array other => sameItems one other
  | object one, object other => sameEntries one other
  | _, _ => false

def sameItems : List Json → List Json → Bool
  | [], [] => true
  | one :: rest, other :: others => one.same other && sameItems rest others
  | _, _ => false

def sameEntries : List (String × Json) → List (String × Json) → Bool
  | [], [] => true
  | (key, one) :: rest, (key', other) :: others =>
      key == key' && one.same other && sameEntries rest others
  | _, _ => false

end

mutual

theorem same_iff (one other : Json) : one.same other = true ↔ one = other := by
  cases one <;> cases other <;> simp [same, sameItems_iff, sameEntries_iff]

theorem sameItems_iff (items others : List Json) :
    sameItems items others = true ↔ items = others := by
  cases items <;> cases others <;> simp [sameItems, same_iff, sameItems_iff]

theorem sameEntries_iff (entries others : List (String × Json)) :
    sameEntries entries others = true ↔ entries = others := by
  rcases entries with _ | ⟨⟨key, one⟩, rest⟩ <;> rcases others with _ | ⟨⟨key', other⟩, others⟩ <;>
    simp [sameEntries, same_iff, sameEntries_iff]

end

instance : DecidableEq Json := fun one other => decidable_of_iff _ (same_iff one other)

mutual

/-- How deep arrays and objects are nested. -/
def depth : Json → Nat
  | array items => depthOfItems items + 1
  | object entries => depthOfEntries entries + 1
  | _ => 0

def depthOfItems : List Json → Nat
  | [] => 0
  | item :: rest => max item.depth (depthOfItems rest)

def depthOfEntries : List (String × Json) → Nat
  | [] => 0
  | (_, value) :: rest => max value.depth (depthOfEntries rest)

end

mutual

/-- All numbers and strings in the document stand for values. -/
def isValid : Json → Bool
  | array items => areValidItems items
  | object entries => areValidEntries entries
  | invalid => false
  | _ => true

def areValidItems : List Json → Bool
  | [] => true
  | item :: rest => item.isValid && areValidItems rest

def areValidEntries : List (String × Json) → Bool
  | [] => true
  | (_, value) :: rest => value.isValid && areValidEntries rest

end

end Json

end CodeGraph
