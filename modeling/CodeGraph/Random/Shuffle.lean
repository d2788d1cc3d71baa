import CodeGraph.Random.Generator

namespace CodeGraph

/-! Random orders.  One draw from the generator serves for several swaps, as long as the product of
their ranges fits into a word. -/

/-- A drawn number that still holds the given number of choices. -/
structure Choices where
  value : Nat := 0
  left : Nat := 1
deriving DecidableEq, Repr, Inhabited

namespace Choices

/-- The product `range * (range + 1) * …` as far as it stays below `shortSize`, and the factor after
it. -/
def grow : Nat → Nat → Nat → Nat × Nat
  | 0, product, factor => (product, factor)
  | fuel + 1, product, factor =>
      if product * factor < shortSize then grow fuel (product * factor) (factor + 1)
      else (product, factor)

/-- A choice below the range. -/
def take (choices : Choices) (range : Nat) (generator : Generator) :
    Nat × Choices × Generator :=
  let (choices, generator) :=
    if choices.left = 0 then
      let (product, factor) := grow 32 range (range + 1)
      let (value, generator) := generator.below product
      (({ value, left := factor - range - 1 } : Choices), generator)
    else ({ choices with left := choices.left - 1 }, generator)
  if choices.left = 0 then (choices.value, choices, generator)
  else (choices.value % range, { choices with value := choices.value / range }, generator)

end Choices

structure Shuffling where
  order : Array Nat
  choices : Choices := {}
  generator : Generator

/-- Swaps an item with one that is not behind it. -/
def Shuffling.swap (state : Shuffling) (index : Nat) : Shuffling :=
  let (other, choices, generator) := state.choices.take (index + 1) state.generator
  { order := state.order.swapIfInBounds index other, choices, generator }

/-- The numbers below the size in random order. -/
def Generator.shuffle (generator : Generator) (size : Nat) : List Nat × Generator :=
  if size ≤ 1 then (List.range size, generator)
  else
    let state := (List.range size).foldl Shuffling.swap { order := Array.range size, generator }
    (state.order.toList, state.generator)

end CodeGraph
