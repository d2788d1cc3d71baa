import CodeGraph.Proofs.Graph.History

namespace CodeGraph

/-! A saved graph reads back as the graph it was. -/

/-! Numbers in documents.  Lines are words and weights are short words, and only finite numbers
can be written. -/

def Node.fits : Node → Bool
  | .chunk _ _ _ _ _ _ startLine endLine => startLine < wordSize && endLine < wordSize
  | .symbol .. => true

def Edge.fits (edge : Edge) : Bool :=
  edge.line < wordSize && edge.weight < shortSize

def GraphDocument.fits (document : GraphDocument) : Bool :=
  document.nodes.all Node.fits && document.edges.all Edge.fits

mutual

def Json.isFinite : Json → Bool
  | .float value => value.isFinite
  | .array items => areFiniteItems items
  | .object entries => areFiniteEntries entries
  | _ => true

def Json.areFiniteItems : List Json → Bool
  | [] => true
  | item :: rest => item.isFinite && areFiniteItems rest

def Json.areFiniteEntries : List (String × Json) → Bool
  | [] => true
  | (_, value) :: rest => value.isFinite && areFiniteEntries rest

end

theorem Json.areFiniteItems_iff {items : List Json} :
    areFiniteItems items = true ↔ ∀ item ∈ items, item.isFinite = true := by
  induction items with
  | nil => simp [areFiniteItems]
  | cons item rest ih => simp [areFiniteItems, ih]

theorem Node.isFinite_toJson (node : Node) : node.toJson.isFinite = true := by
  cases node with
  | chunk id name kind file language parentId startLine endLine =>
      cases parentId <;> simp [toJson, Json.isFinite, Json.areFiniteEntries]
  | symbol id isTargetName => simp [toJson, Json.isFinite, Json.areFiniteEntries]

theorem Edge.isFinite_toJson (edge : Edge) :
    edge.toJson.isFinite = edge.confidence.isFinite := by
  simp [toJson, Json.isFinite, Json.areFiniteEntries]

theorem Store.isFinite_toJson {store : Store}
    (hfinite : ∀ edge ∈ store.edges, edge.confidence.isFinite = true) :
    store.toJson.isFinite = true := by
  have hnodes : Json.areFiniteItems (store.nodes.map Node.toJson) = true := by
    rw [Json.areFiniteItems_iff]
    intro item hitem
    obtain ⟨node, -, rfl⟩ := List.mem_map.mp hitem
    exact node.isFinite_toJson
  have hedges : Json.areFiniteItems (store.edges.map Edge.toJson) = true := by
    rw [Json.areFiniteItems_iff]
    intro item hitem
    obtain ⟨edge, hmem, rfl⟩ := List.mem_map.mp hitem
    rw [edge.isFinite_toJson]
    exact hfinite edge hmem
  simp [toJson, document, GraphDocument.toJson, Json.isFinite, Json.areFiniteEntries, hnodes,
    hedges]

/-! Decoding -/

theorem Json.asList?_map {α : Type} {write : α → Json} {read? : Json → Option α} {items : List α}
    (hreads : ∀ item ∈ items, read? (write item) = some item) :
    asList? read? (.array (items.map write)) = some items := by
  have hmapM : (items.map write).mapM read? = some items := by
    induction items with
    | nil => rfl
    | cons item rest ih =>
        have hrest := ih fun other hmem => hreads other (List.mem_cons_of_mem item hmem)
        simp [List.mapM_cons, hreads item List.mem_cons_self, hrest]
  exact hmapM

theorem ChunkKind.ofJson?_name (kind : ChunkKind) : ofJson? (.string kind.name) = some kind := by
  simp [ofJson?, Json.asChoice?, ofName?_name]

theorem Node.ofJson?_toJson {node : Node} (hfits : node.fits = true) :
    ofJson? node.toJson = some node := by
  cases node with
  | chunk id name kind file language parentId startLine endLine =>
      simp only [fits, Bool.and_eq_true, decide_eq_true_eq] at hfits
      cases parentId <;>
        simp [ofJson?, toJson, Json.depth, Json.depthOfEntries, depthLimit, Json.isValid,
          Json.areValidEntries, Json.untag?, Json.slots?, chunkFields, Json.uniqueValue?,
          chunkOfSlots?, Json.Slot.required?, Json.Slot.defaulted?, Json.asString?,
          Json.asNatural?, Json.asOptional?, ChunkKind.ofJson?_name, hfits]
  | symbol id isTargetName =>
      simp [ofJson?, toJson, Json.depth, Json.depthOfEntries, depthLimit, Json.isValid,
        Json.areValidEntries, Json.untag?, Json.slots?, Json.uniqueValue?, symbolOfSlots?,
        Json.Slot.required?, Json.asString?, Json.asBool?]

theorem Edge.ofJson?_toJson {edge : Edge} (hfits : edge.fits = true) :
    ofJson? edge.toJson = some edge := by
  simp only [fits, Bool.and_eq_true, decide_eq_true_eq] at hfits
  simp [ofJson?, toJson, Json.slots?, fields, Json.uniqueValue?, ofSlots?, Json.Slot.required?,
    Json.Slot.defaulted?, Json.asString?, Json.asNatural?, Json.asFloat?, Json.asBool?,
    Relation.ofJson?, Json.asChoice?, Relation.ofName?_name, hfits]

theorem GraphDocument.ofJson?_toJson {document : GraphDocument} (hfits : document.fits = true) :
    ofJson? document.toJson = some document := by
  simp only [fits, Bool.and_eq_true, List.all_eq_true] at hfits
  have hnodes : Json.asList? Node.ofJson? (.array (document.nodes.map Node.toJson)) =
      some document.nodes :=
    Json.asList?_map fun node hmem => Node.ofJson?_toJson (hfits.1 node hmem)
  have hedges : Json.asList? Edge.ofJson? (.array (document.edges.map Edge.toJson)) =
      some document.edges :=
    Json.asList?_map fun edge hmem => Edge.ofJson?_toJson (hfits.2 edge hmem)
  simp [ofJson?, toJson, Json.slots?, Json.uniqueValue?, ofSlots?, Json.Slot.required?,
    Json.asBool?, hnodes, hedges]

/-! Replaying -/

namespace Store

/-- Nodes that are put again find no node of their id, and edges none of their key. -/
theorem ofDocument_document {store : Store} (hsound : store.Sound) :
    ofDocument store.document = store := by
  have hnodes : (store.nodes.foldl addNode {}).nodes = store.nodes := by
    rw [nodes_foldl_addNode, Keyed.putAll_of_nodup (by simpa [ids] using hsound.ids_nodup),
      List.nil_append]
  have hends : ∀ edge ∈ store.edges, (store.nodes.foldl addNode {}).has edge.source = true ∧
      (store.nodes.foldl addNode {}).has edge.target = true := by
    intro edge hmem
    rw [has_of_nodes_eq hnodes, has_of_nodes_eq hnodes]
    exact hsound.ends_known edge hmem
  apply eq_of_lists
  · rw [ofDocument, document, nodes_foldl_addEdge_of_has hends, hnodes]
  · rw [ofDocument, document, edges_foldl_addEdge, edges_foldl_addNode,
      Keyed.putAll_of_nodup (by simpa using hsound.keys_nodup), List.nil_append]

/-- A graph that is saved and loaded is the same graph, whatever was done to it before.  Of the text
in between it is only used that it reads back as the document that was written, where all numbers
of the document are finite. -/
theorem load_of_saved (history : List Mutation) (render : Json → String)
    (read? : String → Option Json)
    (hfits : (ofHistory history).document.fits = true)
    (hfinite : ∀ edge ∈ (ofHistory history).edges, edge.confidence.isFinite = true)
    (hreads : (ofHistory history).toJson.isFinite = true →
      read? (render (ofHistory history).toJson) = some (ofHistory history).toJson) :
    ((read? (render (ofHistory history).toJson)).bind GraphDocument.ofJson?).map ofDocument =
      some (ofHistory history) := by
  rw [hreads (isFinite_toJson hfinite), Option.bind_some, toJson,
    GraphDocument.ofJson?_toJson hfits, Option.map_some,
    ofDocument_document (Sound.ofHistory history)]

/-- A method with a parent that calls a name twice, and a class that lost its edges again. -/
def sampleHistory : List Mutation :=
  [.addNode (.chunk "a.py:1-4:class:A" "A" .classDef "a.py" "python" none 1 4),
    .addEdge
      { source := "a.py:1-4:class:A", target := "g", relation := .inherits, line := 1 },
    .addNode
      (.chunk "a.py:2-4:method:A.f" "f" .method "a.py" "python" (some "a.py:1-4:class:A") 2 4),
    .addEdge
      { source := "a.py:2-4:method:A.f", target := "g", relation := .calls, line := 3,
        confidence := 0.5, isMethodCall := true },
    .addEdge { source := "a.py:2-4:method:A.f", target := "g", relation := .calls, line := 4 },
    .removeEdgesFrom "a.py:1-4:class:A"]

theorem load_of_saved_sample :
    let store := ofHistory sampleHistory
    ((Json.read? store.toJson.render).bind GraphDocument.ofJson?).map ofDocument = some store := by
  intro store
  have hreads : Json.read? store.toJson.render = some store.toJson := by
    rw [Json.read?, Json.render, String.toList_ofList]
    decide +kernel
  exact load_of_saved sampleHistory Json.render Json.read? (by decide) (by decide) fun _ => hreads

end Store

end CodeGraph
