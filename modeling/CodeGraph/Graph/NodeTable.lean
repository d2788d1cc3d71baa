import CodeGraph.Graph.Node
import CodeGraph.NameMap

namespace CodeGraph

/-! Nodes by their places, with a map from their ids to the places.  A node keeps its place for
good. -/

structure NodeTable where
  nodes : List Node := []
  places : NameMap Nat := []
deriving Repr, Inhabited

namespace NodeTable

/-- A node takes the place of the one with its id, or the place behind all others. -/
def put (table : NodeTable) (node : Node) : NodeTable :=
  match table.places.get? node.id with
  | some place => { table with nodes := table.nodes.set place node }
  | none =>
      { nodes := table.nodes ++ [node]
        places := table.places.insert node.id table.nodes.length }

/-- The map leads from each id to the first node that carries it, and from nothing else. -/
structure InStep (table : NodeTable) : Prop where
  sorted : (table.places.map Prod.fst).Pairwise (· < ·)
  get?_places : ∀ id, table.places.get? id = table.nodes.findIdx? fun node => node.id == id

theorem InStep.empty : InStep {} where
  sorted := .nil
  get?_places := fun _ => rfl

theorem findIdx?_id_eq (nodes : List Node) (id : String) :
    (nodes.findIdx? fun node => node.id == id) = (nodes.map Node.id).findIdx? (· == id) := by
  rw [List.findIdx?_map]
  rfl

/-- A node in the place of one with its id leaves the ids as they are. -/
theorem map_id_set {nodes : List Node} {node : Node} {place : Nat}
    (hplace : (nodes.findIdx? fun other => other.id == node.id) = some place) :
    (nodes.set place node).map Node.id = nodes.map Node.id := by
  obtain ⟨hbound, hid, -⟩ := List.findIdx?_eq_some_iff_getElem.mp hplace
  rw [List.map_set, ← beq_iff_eq.mp hid, ← List.getElem_map Node.id, List.set_getElem_self]
  simpa using hbound

theorem InStep.put {table : NodeTable} (hstep : table.InStep) (node : Node) :
    (table.put node).InStep := by
  unfold NodeTable.put
  split
  · next place hplace =>
      rw [hstep.get?_places] at hplace
      refine ⟨hstep.sorted, fun id => ?_⟩
      rw [hstep.get?_places, findIdx?_id_eq, findIdx?_id_eq, map_id_set hplace]
  · next hfresh =>
      refine ⟨NameMap.sorted_insert hstep.sorted _ _, fun id => ?_⟩
      rw [hstep.get?_places] at hfresh
      rw [NameMap.get?_insert, hstep.get?_places, List.findIdx?_append]
      by_cases hid : node.id = id
      · subst hid
        rw [if_pos rfl, hfresh]
        simp [List.findIdx?_cons]
      · simp [hid, List.findIdx?_cons]

/-- The map is determined by the nodes. -/
theorem InStep.eq_of_nodes {first second : NodeTable} (hfirst : first.InStep)
    (hsecond : second.InStep) (hnodes : first.nodes = second.nodes) : first = second := by
  have hplaces : first.places = second.places := by
    refine NameMap.eq_of_get?_eq hfirst.sorted hsecond.sorted fun id => ?_
    rw [hfirst.get?_places, hsecond.get?_places, hnodes]
  cases first
  cases second
  cases hnodes
  cases hplaces
  rfl

end NodeTable

end CodeGraph
