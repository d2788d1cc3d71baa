import CodeGraph.Index.Run
import CodeGraph.Proofs.Graph.Confidence
import CodeGraph.Proofs.Graph.Edges

namespace CodeGraph

/-! What can be done to a store, one change after the other, and the two maps that it amounts to. -/

inductive Mutation where
  | addNode (node : Node)
  | addChunk (chunk : Chunk)
  | addEdge (edge : Edge)
  | removeEdgesFrom (id : String)
  | clear
  | load (files : Files) (path : String)

/-- Nodes lose their places only when all of them are given up. -/
def Mutation.keepsPlaces : Mutation → Bool
  | clear | load .. => false
  | _ => true

namespace Store

def apply (store : Store) : Mutation → Store
  | .addNode node => store.addNode node
  | .addChunk chunk => store.addChunk chunk
  | .addEdge edge => store.addEdge edge
  | .removeEdgesFrom id => store.removeEdgesFrom id
  | .clear => {}
  | .load files path => .load files path

/-- The store that was empty at first. -/
def ofHistory (history : List Mutation) : Store :=
  history.foldl apply {}

theorem ofHistory_append (history more : List Mutation) :
    ofHistory (history ++ more) = more.foldl apply (ofHistory history) :=
  List.foldl_append

/-! Every node has one place, every edge has a key of its own and ends that are known. -/

structure Sound (store : Store) : Prop where
  ids_nodup : store.ids.Nodup
  keys_nodup : (store.edges.map Edge.key).Nodup
  ends_known : ∀ edge ∈ store.edges,
    store.has edge.source = true ∧ store.has edge.target = true

namespace Sound

theorem empty : Sound {} where
  ids_nodup := List.nodup_nil
  keys_nodup := List.nodup_nil
  ends_known := fun _ hmem => nomatch hmem

theorem addNode {store : Store} (hsound : store.Sound) (node : Node) :
    (store.addNode node).Sound where
  ids_nodup := nodup_ids_addNode hsound.ids_nodup node
  keys_nodup := hsound.keys_nodup
  ends_known := by
    intro edge hmem
    exact has_ends_of_prefix_ids (ids_prefix_addNode store node) (hsound.ends_known edge hmem)

theorem addEdge {store : Store} (hsound : store.Sound) (edge : Edge) :
    (store.addEdge edge).Sound where
  ids_nodup := nodup_ids_ensure (nodup_ids_ensure hsound.ids_nodup edge.source) edge.target
  keys_nodup := by
    rw [edges_addEdge, putEdge_eq_put]
    exact Keyed.nodup_put joinsKey_absorb edge hsound.keys_nodup
  ends_known := by
    intro other hmem
    rw [edges_addEdge] at hmem
    have hearlier : ∀ earlier ∈ store.edges,
        (store.addEdge edge).has earlier.source = true ∧
          (store.addEdge edge).has earlier.target = true :=
      fun earlier hold =>
        has_ends_of_prefix_ids (ids_prefix_addEdge store edge) (hsound.ends_known earlier hold)
    rcases mem_putEdge hmem with rfl | ⟨earlier, hold, rfl | ⟨-, rfl⟩⟩
    · exact ⟨has_source_addEdge store other, has_target_addEdge store other⟩
    · exact hearlier other hold
    · exact hearlier earlier hold

theorem removeEdgesFrom {store : Store} (hsound : store.Sound) (id : String) :
    (store.removeEdgesFrom id).Sound where
  ids_nodup := hsound.ids_nodup
  keys_nodup := nodup_keys_removeEdgesFrom hsound.keys_nodup id
  ends_known := fun edge hmem => hsound.ends_known edge (mem_edges_removeEdgesFrom.mp hmem).1

theorem ofDocument (document : GraphDocument) : (Store.ofDocument document).Sound := by
  have hnodes : (document.nodes.foldl Store.addNode {}).Sound :=
    List.foldlRecOn document.nodes Store.addNode empty fun _ hsound node _ => hsound.addNode node
  exact List.foldlRecOn document.edges Store.addEdge hnodes
    fun _ hsound edge _ => hsound.addEdge edge

theorem load (files : Files) (path : String) : (Store.load files path).Sound := by
  unfold Store.load
  split
  · exact ofDocument _
  · exact empty

theorem apply {store : Store} (hsound : store.Sound) (mutation : Mutation) :
    (store.apply mutation).Sound := by
  cases mutation with
  | addNode node => exact hsound.addNode node
  | addChunk chunk => exact hsound.addNode (.ofChunk chunk)
  | addEdge edge => exact hsound.addEdge edge
  | removeEdgesFrom id => exact hsound.removeEdgesFrom id
  | clear => exact empty
  | load files path => exact load files path

theorem ofHistory (history : List Mutation) : (Store.ofHistory history).Sound :=
  List.foldlRecOn history Store.apply empty fun _ hsound mutation _ => hsound.apply mutation

end Sound

theorem ids_prefix_apply {mutation : Mutation} (hkeeps : mutation.keepsPlaces = true)
    (store : Store) : store.ids <+: (store.apply mutation).ids := by
  cases mutation with
  | addNode node => exact ids_prefix_addNode store node
  | addChunk chunk => exact ids_prefix_addNode store (.ofChunk chunk)
  | addEdge edge => exact ids_prefix_addEdge store edge
  | removeEdgesFrom id => exact List.prefix_rfl
  | clear => cases hkeeps
  | load files path => cases hkeeps

theorem ids_prefix_foldl_apply {mutations : List Mutation}
    (hkeeps : ∀ mutation ∈ mutations, mutation.keepsPlaces = true) (store : Store) :
    store.ids <+: (mutations.foldl apply store).ids := by
  induction mutations generalizing store with
  | nil => exact List.prefix_rfl
  | cons mutation rest ih =>
      have hfirst := ids_prefix_apply (hkeeps mutation List.mem_cons_self) store
      exact hfirst.trans
        (ih (fun other hmem => hkeeps other (List.mem_cons_of_mem mutation hmem)) _)

end Store

/-! The maps -/

/-- What is known of an edge besides its key. -/
structure EdgeData where
  line : Nat
  confidence : Float
  isMethodCall : Bool
  weight : Nat

/-- The line stays that of the first occurrence, an occurrence counts at least once, and of the
confidences the one of the larger value counts. -/
def EdgeData.again (first other : EdgeData) : EdgeData :=
  { line := first.line
    confidence :=
      if Confidence.valueOf first.confidence < Confidence.valueOf other.confidence then
        other.confidence
      else first.confidence
    isMethodCall := first.isMethodCall || other.isMethodCall
    weight := first.weight + max other.weight 1 }

def Edge.data (edge : Edge) : EdgeData :=
  { line := edge.line
    confidence := edge.confidence
    isMethodCall := edge.isMethodCall
    weight := edge.weight }

/-- A map from ids to nodes, with the ids in the order of their first insertion, and a map from keys
to edges. -/
@[ext] structure Ledger where
  order : List String := []
  node? : String → Option Node := fun _ => none
  edge? : String × String × Relation → Option EdgeData := fun _ => none

namespace Ledger

def addNode (ledger : Ledger) (node : Node) : Ledger :=
  { ledger with
    order := if node.id ∈ ledger.order then ledger.order else ledger.order ++ [node.id]
    node? := fun id => if node.id = id then some node else ledger.node? id }

def ensure (ledger : Ledger) (id : String) : Ledger :=
  if id ∈ ledger.order then ledger else ledger.addNode (.phantom id)

def addEdge (ledger : Ledger) (edge : Edge) : Ledger :=
  { (ledger.ensure edge.source).ensure edge.target with
    edge? := fun key =>
      if edge.key = key then
        match ledger.edge? key with
        | none => some edge.data
        | some first => some (first.again edge.data)
      else ledger.edge? key }

def removeEdgesFrom (ledger : Ledger) (id : String) : Ledger :=
  { ledger with edge? := fun key => if key.1 = id then none else ledger.edge? key }

def ofDocument (document : GraphDocument) : Ledger :=
  document.edges.foldl addEdge (document.nodes.foldl addNode {})

def load (files : Files) (path : String) : Ledger :=
  match files.readDocument path with
  | .ok document => ofDocument document
  | .error _ => {}

def apply (ledger : Ledger) : Mutation → Ledger
  | .addNode node => ledger.addNode node
  | .addChunk chunk => ledger.addNode (.ofChunk chunk)
  | .addEdge edge => ledger.addEdge edge
  | .removeEdgesFrom id => ledger.removeEdgesFrom id
  | .clear => {}
  | .load files path => .load files path

def ofHistory (history : List Mutation) : Ledger :=
  history.foldl apply {}

end Ledger

namespace Store

def ledger (store : Store) : Ledger :=
  { order := store.ids
    node? := store.node?
    edge? := fun key => (store.edge? key).map Edge.data }

theorem data_absorb (first edge : Edge) :
    (first.absorb edge).data = first.data.again edge.data := by
  rw [Edge.absorb, Confidence.largerConfidence_eq]
  rfl

theorem ledger_addNode (store : Store) (node : Node) :
    (store.addNode node).ledger = store.ledger.addNode node := by
  apply Ledger.ext
  · exact ids_addNode store node
  · funext id
    exact node?_addNode store node id
  · rfl

theorem ledger_ensure (store : Store) (id : String) :
    (store.ensure id).ledger = store.ledger.ensure id := by
  rw [ensure, Ledger.ensure]
  by_cases hhas : store.has id = true
  · have hmem : id ∈ store.ledger.order := has_iff_mem_ids.mp hhas
    rw [if_pos hhas, if_pos hmem]
  · have hfresh : id ∉ store.ledger.order := fun hmem => hhas (has_iff_mem_ids.mpr hmem)
    rw [if_neg hhas, if_neg hfresh, ledger_addNode]

theorem ledger_addEdge (store : Store) (edge : Edge) :
    (store.addEdge edge).ledger = store.ledger.addEdge edge := by
  have hends : ((store.ensure edge.source).ensure edge.target).ledger =
      (store.ledger.ensure edge.source).ensure edge.target := by
    rw [ledger_ensure, ledger_ensure]
  have horder := congrArg Ledger.order hends
  have hnode := congrArg Ledger.node? hends
  apply Ledger.ext
  · exact horder
  · exact hnode
  · funext key
    simp only [ledger, Ledger.addEdge, edge?_addEdge]
    split
    · cases store.edge? key with
      | none => rfl
      | some first => exact congrArg some (data_absorb first edge)
    · rfl

theorem ledger_removeEdgesFrom {store : Store} (hsound : store.Sound) (id : String) :
    (store.removeEdgesFrom id).ledger = store.ledger.removeEdgesFrom id := by
  apply Ledger.ext
  · rfl
  · rfl
  · funext key
    simp only [ledger, Ledger.removeEdgesFrom, edge?_removeEdgesFrom hsound.keys_nodup]
    split <;> rfl

theorem ledger_ofDocument (document : GraphDocument) :
    (ofDocument document).ledger = Ledger.ofDocument document := by
  have hnodes : (document.nodes.foldl addNode {}).ledger = document.nodes.foldl Ledger.addNode {} :=
    (List.foldl_hom ledger fun store node => (ledger_addNode store node).symm).symm
  rw [ofDocument, Ledger.ofDocument, ← hnodes]
  exact (List.foldl_hom ledger fun store edge => (ledger_addEdge store edge).symm).symm

theorem ledger_load (files : Files) (path : String) :
    (load files path).ledger = Ledger.load files path := by
  unfold load Ledger.load
  cases files.readDocument path with
  | ok document => exact ledger_ofDocument document
  | error reason => rfl

theorem ledger_apply {store : Store} (hsound : store.Sound) (mutation : Mutation) :
    (store.apply mutation).ledger = store.ledger.apply mutation := by
  cases mutation with
  | addNode node => exact ledger_addNode store node
  | addChunk chunk => exact ledger_addNode store (.ofChunk chunk)
  | addEdge edge => exact ledger_addEdge store edge
  | removeEdgesFrom id => exact ledger_removeEdgesFrom hsound id
  | clear => rfl
  | load files path => exact ledger_load files path

theorem ledger_ofHistory (history : List Mutation) :
    (ofHistory history).ledger = Ledger.ofHistory history := by
  induction history using List.reverseRecOn with
  | nil => rfl
  | append_singleton history mutation ih =>
      rw [ofHistory_append, List.foldl_cons, List.foldl_nil,
        ledger_apply (Sound.ofHistory history), ih, Ledger.ofHistory, Ledger.ofHistory,
        List.foldl_append, List.foldl_cons, List.foldl_nil]

theorem mem_edges_iff_ledger {store : Store} (hsound : store.Sound) (edge : Edge) :
    edge ∈ store.edges ↔ store.ledger.edge? edge.key = some edge.data := by
  simp only [ledger, Option.map_eq_some_iff]
  constructor
  · intro hmem
    exact ⟨edge, (Keyed.lookup?_eq_some_iff hsound.keys_nodup).mpr ⟨hmem, rfl⟩, rfl⟩
  · rintro ⟨found, hfound, hdata⟩
    obtain ⟨hmem, hkey⟩ := (Keyed.lookup?_eq_some_iff hsound.keys_nodup).mp hfound
    -- an edge is nothing but its key and its data
    have hsame : found = edge := by
      cases found
      cases edge
      simp_all [Edge.key, Edge.data]
    exact hsame ▸ hmem

/-! The effect of single changes on a sound store -/

/-- Where an edge of the key stands, it alone changes, in its place. -/
theorem addEdge_of_mem {store : Store} (hsound : store.Sound) {first edge : Edge}
    (hmem : first ∈ store.edges) (hkey : edge.key = first.key) :
    (store.addEdge edge).toNodeTable = store.toNodeTable ∧
      ∃ front back, store.edges = front ++ first :: back ∧
        (store.addEdge edge).edges = front ++ first.absorb edge :: back := by
  obtain ⟨hsource, htarget⟩ := hsound.ends_known first hmem
  have hends : edge.source = first.source ∧ edge.target = first.target := by
    simp only [Edge.key, Prod.mk.injEq] at hkey
    exact ⟨hkey.1, hkey.2.1⟩
  have hfound : Keyed.lookup? Edge.key store.edges edge.key = some first :=
    (Keyed.lookup?_eq_some_iff hsound.keys_nodup).mpr ⟨hmem, hkey.symm⟩
  obtain ⟨front, back, hedges, -, hput⟩ := Keyed.put_of_lookup? Edge.absorb hfound
  refine ⟨nodeTable_addEdge_of_has (hends.1 ▸ hsource) (hends.2 ▸ htarget), front, back, hedges, ?_⟩
  rw [edges_addEdge, putEdge_eq_put, hput]

/-- Whatever was done to a store, it is the pair of maps that the same changes make of nothing. -/
theorem ofHistory_mirrors_ledger (history : List Mutation) :
    let store := ofHistory history
    let ledger := Ledger.ofHistory history
    -- the maps determine the nodes, in their order, and the edges
    store.ledger = ledger ∧
    store.nodes = ledger.order.filterMap ledger.node? ∧
    (∀ edge, edge ∈ store.edges ↔ ledger.edge? edge.key = some edge.data) ∧
    -- the map of places is in step: it leads from the ids to the nodes that carry them
    (∀ id place, store.places.get? id = some place ↔
      ∃ node, store.nodes[place]? = some node ∧ node.id = id) ∧
    (store.places.map Prod.fst).Perm ledger.order ∧
    (∀ edge ∈ store.edges, store.has edge.source = true ∧ store.has edge.target = true) ∧
    (store.edges.map Edge.key).Nodup ∧
    -- an edge that is added again
    (∀ first ∈ store.edges, ∀ edge : Edge, edge.key = first.key →
      (store.addEdge edge).toNodeTable = store.toNodeTable ∧
      ∃ front back confidence, store.edges = front ++ first :: back ∧
        (confidence = first.confidence ∨ confidence = edge.confidence) ∧
        Confidence.valueOf confidence =
          max (Confidence.valueOf first.confidence) (Confidence.valueOf edge.confidence) ∧
        (store.addEdge edge).edges = front ++
          { first with
            confidence
            isMethodCall := first.isMethodCall || edge.isMethodCall
            weight := first.weight + max edge.weight 1 } :: back) ∧
    -- a node that is added again
    (∀ node, store.has node.id = true →
      (store.addNode node).edges = store.edges ∧
      (store.addNode node).places = store.places ∧
      ∀ id, (store.addNode node).node? id = if node.id = id then some node else store.node? id) ∧
    -- edges that are removed
    (∀ id,
      (store.dropEdgesFrom id).1.toNodeTable = store.toNodeTable ∧
      (store.dropEdgesFrom id).1.edges.Perm (store.edges.filter fun edge => edge.source ≠ id) ∧
      (store.dropEdgesFrom id).2 = (store.edges.filter fun edge => edge.source = id).length) ∧
    -- places last until all nodes are given up
    ∀ more : List Mutation, (∀ mutation ∈ more, mutation.keepsPlaces = true) →
      ∀ id place, store.places.get? id = some place →
        (ofHistory (history ++ more)).places.get? id = some place := by
  intro store ledger
  have hsound : store.Sound := Sound.ofHistory history
  have hledger : store.ledger = ledger := ledger_ofHistory history
  refine ⟨hledger, ?_, ?_, ?_, ?_, hsound.ends_known, hsound.keys_nodup, ?_, ?_, ?_, ?_⟩
  · rw [← hledger]
    exact nodes_eq_filterMap hsound.ids_nodup
  · rw [← hledger]
    exact mem_edges_iff_ledger hsound
  · intro id place
    exact indexOf?_eq_some_iff hsound.ids_nodup
  · rw [← hledger]
    exact places_perm_ids hsound.ids_nodup
  · intro first hmem edge hkey
    obtain ⟨htable, front, back, hedges, hadded⟩ := addEdge_of_mem hsound hmem hkey
    exact ⟨htable, front, back, Edge.largerConfidence first.confidence edge.confidence, hedges,
      Confidence.largerConfidence_eq_or _ _, Confidence.valueOf_largerConfidence _ _, hadded⟩
  · intro node hhas
    exact ⟨rfl, places_addNode_of_has hhas, node?_addNode store node⟩
  · intro id
    exact ⟨rfl, edges_removeEdgesFrom_perm store id, length_outgoingIndices store.edges id⟩
  · intro more hkeeps id place hplace
    rw [ofHistory_append]
    exact indexOf?_of_prefix_ids (ids_prefix_foldl_apply hkeeps store) hplace

end Store

end CodeGraph
