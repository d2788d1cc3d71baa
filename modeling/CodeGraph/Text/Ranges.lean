namespace CodeGraph.Text

/-! Membership in tables of character ranges. -/

/-- Ranges are given in increasing order, so a range that starts above the code ends the
search. -/
def inRanges : List (Nat × Nat) → Nat → Bool
  | [], _ => false
  | (low, high) :: rest, code =>
      if code < low then false else code ≤ high || inRanges rest code

def inBlocks (blocks : List (List (Nat × Nat))) (c : Char) : Bool :=
  blocks.any fun ranges => inRanges ranges c.toNat

end CodeGraph.Text
