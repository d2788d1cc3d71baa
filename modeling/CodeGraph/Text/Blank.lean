import CodeGraph.Text.Ranges

namespace CodeGraph.Text

/-! Blank characters: the Unicode property White_Space. -/

def blankRanges : List (Nat × Nat) :=
  [(0x9, 0xd), (0x20, 0x20), (0x85, 0x85), (0xa0, 0xa0), (0x1680, 0x1680), (0x2000, 0x200a),
   (0x2028, 0x2029), (0x202f, 0x202f), (0x205f, 0x205f), (0x3000, 0x3000)]

def isBlank (c : Char) : Bool :=
  inRanges blankRanges c.toNat

def trimStart (text : List Char) : List Char :=
  text.dropWhile isBlank

def trimEnd (text : List Char) : List Char :=
  (text.reverse.dropWhile isBlank).reverse

def trim (text : List Char) : List Char :=
  trimEnd (trimStart text)

/-- The text without its blanks. -/
def squeeze (text : List Char) : List Char :=
  text.filter fun c => !isBlank c

@[simp] theorem trim_nil : trim [] = [] := rfl

end CodeGraph.Text
