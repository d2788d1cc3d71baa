import CodeGraph.NameMap

namespace CodeGraph

/-- The number of the community of each chunk. -/
abbrev Communities := NameMap Nat

structure CommunityStats where
  count : Nat := 0
  averageSize : Float := 0.0
  largest : Nat := 0
  smallest : Nat := 0
deriving Repr, Inhabited

namespace Communities

/-- How many chunks each community has. -/
def sizes (communities : Communities) : List Nat :=
  let numbers := communities.map Prod.snd
  numbers.eraseDups.map fun number => numbers.count number

def stats (communities : Communities) : CommunityStats :=
  match communities.sizes with
  | [] => {}
  | size :: rest =>
      { count := rest.length + 1
        averageSize := communities.length.toFloat / (rest.length + 1).toFloat
        largest := rest.foldl max size
        smallest := rest.foldl min size }

end Communities

end CodeGraph
