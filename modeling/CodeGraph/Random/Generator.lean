import CodeGraph.Count

namespace CodeGraph

/-! Pseudo-random words from a seed: the key stream of a cipher that has the seed for its key. -/

/-- The key, the number of the next block, and the words that are left of the last one. -/
structure Generator where
  key : List UInt32
  counter : UInt64 := 0
  pending : List UInt32 := []
deriving DecidableEq, Repr, Inhabited

namespace Generator

def rotateLeft (word : UInt32) (count : UInt32) : UInt32 :=
  (word <<< count) ||| (word >>> (32 - count))

/-! The key -/

def keyWord (state : UInt64) : UInt32 :=
  let mixed := (((state >>> 18) ^^^ state) >>> 27).toUInt32
  let count := (state >>> 59).toUInt32
  (mixed >>> count) ||| (mixed <<< ((32 - count) % 32))

/-- The words that a linear recurrence makes of the seed. -/
def keyWords : Nat → UInt64 → List UInt32
  | 0, _ => []
  | count + 1, state =>
      let next := state * 6364136223846793005 + 11634580027462260723
      keyWord next :: keyWords count next

def ofSeed (seed : Nat) : Generator :=
  { key := keyWords 8 seed.toUInt64 }

/-! Blocks -/

def mix (a b c d : UInt32) : UInt32 × UInt32 × UInt32 × UInt32 :=
  let a := a + b
  let d := rotateLeft (d ^^^ a) 16
  let c := c + d
  let b := rotateLeft (b ^^^ c) 12
  let a := a + b
  let d := rotateLeft (d ^^^ a) 8
  let c := c + d
  let b := rotateLeft (b ^^^ c) 7
  (a, b, c, d)

/-- Mixes the columns of the square of words, and then its diagonals. -/
def doubleRound : List UInt32 → List UInt32
  | [x0, x1, x2, x3, x4, x5, x6, x7, x8, x9, x10, x11, x12, x13, x14, x15] =>
      let (x0, x4, x8, x12) := mix x0 x4 x8 x12
      let (x1, x5, x9, x13) := mix x1 x5 x9 x13
      let (x2, x6, x10, x14) := mix x2 x6 x10 x14
      let (x3, x7, x11, x15) := mix x3 x7 x11 x15
      let (x0, x5, x10, x15) := mix x0 x5 x10 x15
      let (x1, x6, x11, x12) := mix x1 x6 x11 x12
      let (x2, x7, x8, x13) := mix x2 x7 x8 x13
      let (x3, x4, x9, x14) := mix x3 x4 x9 x14
      [x0, x1, x2, x3, x4, x5, x6, x7, x8, x9, x10, x11, x12, x13, x14, x15]
  | words => words

def constants : List UInt32 :=
  [0x61707865, 0x3320646e, 0x79622d32, 0x6b206574]

/-- The sixteen words of a block, after twelve rounds. -/
def block (key : List UInt32) (counter : UInt64) : List UInt32 :=
  let start := constants ++ key ++ [counter.toUInt32, (counter >>> 32).toUInt32, 0, 0]
  let mixed := (List.range 6).foldl (fun words _ => doubleRound words) start
  List.zipWith (· + ·) mixed start

/-- The next word. -/
def next (generator : Generator) : Nat × Generator :=
  match generator.pending with
  | word :: rest => (word.toNat, { generator with pending := rest })
  | [] =>
      match block generator.key generator.counter with
      | word :: rest =>
          (word.toNat, { generator with counter := generator.counter + 1, pending := rest })
      | [] => (0, generator)

/-- A number below the bound, which is below `shortSize`.  A second word settles the cases in which
one word would favour some numbers. -/
def below (bound : Nat) (generator : Generator) : Nat × Generator :=
  let (word, generator) := generator.next
  let product := word * bound
  let high := product / shortSize
  let low := product % shortSize
  if low > shortSize - bound then
    let (word, generator) := generator.next
    (if low + word * bound / shortSize ≥ shortSize then high + 1 else high, generator)
  else (high, generator)

end Generator

end CodeGraph
