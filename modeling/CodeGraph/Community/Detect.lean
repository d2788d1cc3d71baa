import CodeGraph.Community.Basic
import CodeGraph.Community.Clusters
import CodeGraph.Decimal.Text
import CodeGraph.Error
import CodeGraph.Random.Shuffle

namespace CodeGraph

/-! Communities of the graph. -/

structure Detection where
  communities : Communities := []
  modularity : Float := 0.0
deriving Repr, Inhabited

/-- Groups by names: each sorted, and ordered by their first members. -/
def namedGroups (names : List String) (groups : List (List Nat)) : List (List String) :=
  (groups.map fun group => (group.map fun node => names.getD node "").mergeSort).mergeSort
    fun one other => decide (one.headD "" ≤ other.headD "")

/-- Communities are numbered by their smallest members. -/
def numbered (groups : List (List String)) : Communities :=
  NameMap.ofList (groups.zipIdx.flatMap fun entry => entry.1.map fun name => (name, entry.2))

namespace Store

section

variable {α σ : Type}
variable [Add α] [Sub α] [Mul α] [Div α] [NatCast α] [LT α] [DecidableLT α] [BEq α]

/-- The communities in the arithmetic of the given numbers. -/
def communitiesBy (store : Store) (draw : σ → Nat → List Nat × σ) (source : σ) (resolution : α) :
    Communities :=
  numbered (namedGroups store.networkNames (clusters draw source resolution store.network))

end

/-- The communities of the chunks.  The same graph, resolution and seed always give the same
ones. -/
def detect (store : Store) (resolution : Float) (seed : Nat) : Except Error Detection :=
  if !resolution.isFinite || resolution <= 0.0 then
    .error (.algorithm
      ("resolution must be a positive number, got " ++ Decimal.messageText resolution))
  else if store.networkNames.isEmpty then .ok {}
  else
    let groups := clusters Generator.shuffle (.ofSeed seed) resolution store.network
    let modularity := store.network.modularity resolution groups
    if modularity.isFinite then
      .ok
        { communities := store.communitiesBy Generator.shuffle (.ofSeed seed) resolution
          modularity }
    else .error (.algorithm "modularity did not converge to a finite value")

/-- A detection that fails finds nothing. -/
def detectOrNone (store : Store) (resolution : Float) (seed : Nat) : Detection :=
  match store.detect resolution seed with
  | .ok detection => detection
  | .error _ => {}

end Store

end CodeGraph
