namespace CodeGraph

/-! Search by levels: what is reached in one step, in two steps, and so on. -/

variable {α κ : Type} [BEq κ]

/-- The first item of each key that was not seen before. -/
def firstBy (key : α → κ) : List κ → List α → List α
  | _, [] => []
  | seen, item :: rest =>
      if seen.contains (key item) then firstBy key seen rest
      else item :: firstBy key (key item :: seen) rest

/-- The levels behind a frontier, given what one step leads to.  The search ends after an empty
level. -/
def levelsUpTo [BEq α] (step : List α → List α) : Nat → List α → List α → List (List α)
  | 0, _, _ => []
  | depth + 1, seen, frontier =>
      match firstBy id seen (step frontier) with
      | [] => []
      | next => next :: levelsUpTo step depth (seen ++ next) next

/-- The nodes at each distance from a node, up to the given depth. -/
def levels [BEq α] (step : List α → List α) (depth : Nat) (start : α) : List (List α) :=
  levelsUpTo step depth [start] [start]

/-- The new nodes one step behind a frontier.  The frontier is scanned node by node, and what one
node leads to is not new for the next one. -/
def scan [BEq α] (next : α → List α) : List α → List α → List α
  | _, [] => []
  | seen, node :: rest =>
      let found := firstBy id seen (next node)
      found ++ scan next (seen ++ found) rest

/-- The levels behind a frontier, each found by a scan of the one before it. -/
def scannedLevels [BEq α] (next : α → List α) : Nat → List α → List α → List (List α)
  | 0, _, _ => []
  | depth + 1, seen, frontier =>
      match scan next seen frontier with
      | [] => []
      | found => found :: scannedLevels next depth (seen ++ found) found

end CodeGraph
