import CodeGraph.Chunk.Split
import CodeGraph.Count
import CodeGraph.Proofs.Reference.Sites

namespace CodeGraph

open Syntax Names

/-! The chunks of a file with the places of their trees, and the calls that a place in the file has
in them. -/

/-- The address of the definition that a statement introduces. -/
def definitionPlace (statement : SyntaxTree) : List Nat :=
  match statement.kind with
  | .decoratedDefinition => statement.placeOf .definition
  | _ => []

theorem at?_definitionPlace {statement definition : SyntaxTree}
    (hdefinition : definitionOf? statement = some definition) :
    statement.at? (definitionPlace statement) = some definition := by
  unfold definitionOf? at hdefinition
  unfold definitionPlace
  split at hdefinition
  · next hkind => simpa [hkind] using hdefinition
  · next hkind => simpa [hkind] using hdefinition
  · next hkind =>
      rw [hkind]
      exact SyntaxTree.at?_placeOf hdefinition
  · cases hdefinition

theorem isWithin_definitionPlace {statement definition : SyntaxTree}
    (hdefinition : definitionOf? statement = some definition) (rest : List Nat) :
    statement.isWithin .decorator (definitionPlace statement ++ rest) =
      definition.isWithin .decorator rest := by
  unfold definitionOf? at hdefinition
  split at hdefinition
  · next hkind =>
      cases hdefinition
      rw [definitionPlace, hkind]
      rfl
  · next hkind =>
      cases hdefinition
      rw [definitionPlace, hkind]
      rfl
  · next hkind =>
      have hplace : definitionPlace statement = statement.placeOf .definition := by
        rw [definitionPlace, hkind]
      rw [hplace]
      exact SyntaxTree.isWithin_placeOf (by rw [hkind]; decide) hdefinition rest
  · cases hdefinition

/-! Chunks with the places of their trees -/

structure PlacedChunk where
  place : List Nat
  chunk : Chunk

namespace PlacedChunk

def below (place : List Nat) (piece : PlacedChunk) : PlacedChunk :=
  { piece with place := place ++ piece.place }

/-- What each of several trees has, which are the children of a node from `index` on. -/
def spread (pieces : SyntaxTree → List PlacedChunk) (index : Nat) :
    List SyntaxTree → List PlacedChunk
  | [] => []
  | tree :: rest => (pieces tree).map (below [index]) ++ spread pieces (index + 1) rest

theorem chunks_below (place : List Nat) (pieces : List PlacedChunk) :
    (pieces.map (below place)).map chunk = pieces.map chunk := by
  rw [List.map_map]
  rfl

theorem chunks_spread (pieces : SyntaxTree → List PlacedChunk) (index : Nat)
    (trees : List SyntaxTree) :
    (spread pieces index trees).map chunk = trees.flatMap fun tree => (pieces tree).map chunk := by
  induction trees generalizing index with
  | nil => rfl
  | cons tree rest ih =>
      rw [spread, List.map_append, chunks_below, ih, List.flatMap_cons]

theorem exists_of_mem_spread {pieces : SyntaxTree → List PlacedChunk} {start : Nat}
    {trees : List SyntaxTree} {piece : PlacedChunk} (hmem : piece ∈ spread pieces start trees) :
    ∃ index tree inner, trees[index]? = some tree ∧ inner ∈ pieces tree ∧
      piece = below [start + index] inner := by
  induction trees generalizing start with
  | nil => cases hmem
  | cons tree rest ih =>
      rcases List.mem_append.mp hmem with hfirst | hrest
      · obtain ⟨inner, hinner, rfl⟩ := List.mem_map.mp hfirst
        exact ⟨0, tree, inner, rfl, hinner, rfl⟩
      · obtain ⟨index, other, inner, hother, hinner, rfl⟩ := ih hrest
        refine ⟨index + 1, other, inner, hother, hinner, ?_⟩
        rw [Nat.add_assoc, Nat.add_comm 1]

end PlacedChunk

namespace Chunk

open PlacedChunk

/-- The chunk of a member of a class that is a method. -/
def methodOf? (file path : String) (parent : String × String) (member : SyntaxTree) :
    Option Chunk := do
  let method ← definitionOf? member
  let name ← if method.kind = .functionDefinition then method.part? .name else none
  pure (ofDefinition file path .method member name.text (some parent))

def placedMethod (file path : String) (parent : String × String) (member : SyntaxTree) :
    List PlacedChunk :=
  (methodOf? file path parent member).toList.map fun chunk => { place := [], chunk }

def placedMethods (file path : String) (parent : String × String) (definition : SyntaxTree) :
    List PlacedChunk :=
  match definition.part? .body with
  | none => []
  | some body =>
      (spread (placedMethod file path parent) 0 body.children).map
        (below (definition.placeOf .body))

def placedStatement (file path : String) (statement : SyntaxTree) : List PlacedChunk :=
  match definitionOf? statement with
  | none => []
  | some definition =>
      match definition.part? .name with
      | none => []
      | some name =>
          if definition.kind = .functionDefinition then
            [{ place := [], chunk := ofDefinition file path .function statement name.text none }]
          else
            let owner := ofDefinition file path .classDef statement name.text none
            { place := [], chunk := owner } ::
              (placedMethods file path (name.text, owner.id) definition).map
                (below (definitionPlace statement))

section

variable {statement definition name : SyntaxTree} (file path : String)
  (hdefinition : definitionOf? statement = some definition)
  (hname : definition.part? .name = some name)

include hdefinition hname

theorem placedStatement_of_function (hfunction : definition.kind = .functionDefinition) :
    placedStatement file path statement =
      [{ place := [], chunk := ofDefinition file path .function statement name.text none }] := by
  rw [placedStatement, hdefinition]
  dsimp only
  rw [hname]
  exact if_pos hfunction

theorem placedStatement_of_class (hclass : definition.kind = .classDefinition) :
    placedStatement file path statement =
      { place := [], chunk := ofDefinition file path .classDef statement name.text none } ::
        (placedMethods file path
          (name.text, (ofDefinition file path .classDef statement name.text none).id)
          definition).map (below (definitionPlace statement)) := by
  rw [placedStatement, hdefinition]
  dsimp only
  rw [hname]
  exact if_neg (by rw [hclass]; decide)

end

/-- The chunks of a file, each with the place of its tree: the root for the file itself, and for
the others their definition with its decorators. -/
def placed (file path text : String) (root : SyntaxTree) : List PlacedChunk :=
  (if root.children.any isFileLevel then
      [{ place := [], chunk := ofFileLevel file path text root }]
    else []) ++
    spread (placedStatement file path) 0 root.children

theorem chunks_placedMethod (file path : String) (parent : String × String)
    (member : SyntaxTree) :
    (placedMethod file path parent member).map PlacedChunk.chunk =
      (methodOf? file path parent member).toList := by
  rw [placedMethod, List.map_map]
  exact List.map_id _

theorem methodsOf_of_body {definition body : SyntaxTree}
    (hbody : definition.part? .body = some body) (file path : String) (parent : String × String) :
    methodsOf file path parent definition =
      body.children.filterMap (methodOf? file path parent) := by
  rw [methodsOf, hbody]
  rfl

theorem chunks_placedMethods (file path : String) (parent : String × String)
    (definition : SyntaxTree) :
    (placedMethods file path parent definition).map PlacedChunk.chunk =
      methodsOf file path parent definition := by
  cases hbody : definition.part? .body with
  | none => rw [placedMethods, methodsOf, hbody, List.map_nil]
  | some body =>
      rw [methodsOf_of_body hbody, placedMethods, hbody]
      dsimp only
      rw [chunks_below, chunks_spread, funext (chunks_placedMethod file path parent),
        List.filterMap_eq_flatMap_toList]

theorem chunks_placedStatement (file path : String) (statement : SyntaxTree) :
    (placedStatement file path statement).map PlacedChunk.chunk =
      ofStatement file path statement := by
  unfold placedStatement ofStatement
  cases definitionOf? statement with
  | none => rfl
  | some definition =>
      dsimp only
      cases definition.part? .name with
      | none => rfl
      | some name =>
          dsimp only
          split
          · rfl
          · rw [List.map_cons, chunks_below, chunks_placedMethods]

theorem chunks_placed (file path text : String) (root : SyntaxTree) :
    (placed file path text root).map PlacedChunk.chunk = ofTree file path text root := by
  rw [placed, ofTree, List.map_append, chunks_spread, funext (chunks_placedStatement file path)]
  congr 1
  split <;> rfl

theorem methodOf?_eq_some_iff {file path : String} {parent : String × String}
    {member : SyntaxTree} {chunk : Chunk} :
    methodOf? file path parent member = some chunk ↔ ∃ method name,
      definitionOf? member = some method ∧ method.kind = .functionDefinition ∧
        method.part? .name = some name ∧
        chunk = ofDefinition file path .method member name.text (some parent) := by
  unfold methodOf?
  cases definitionOf? member with
  | none => simp
  | some method =>
      by_cases hkind : method.kind = .functionDefinition
      · simp [hkind, Option.bind_eq_some_iff, @eq_comm _ chunk]
      · simp [hkind]

theorem kind_of_mem_placedMethods {file path : String} {parent : String × String}
    {definition : SyntaxTree} {piece : PlacedChunk}
    (hmem : piece ∈ placedMethods file path parent definition) : piece.chunk.kind = .method := by
  unfold placedMethods at hmem
  split at hmem
  · cases hmem
  · obtain ⟨inner, hinner, rfl⟩ := List.mem_map.mp hmem
    obtain ⟨index, member, other, -, hother, rfl⟩ := exists_of_mem_spread hinner
    obtain ⟨chunk, hmethod, rfl⟩ := List.mem_map.mp hother
    obtain ⟨method, name, -, -, -, rfl⟩ := methodOf?_eq_some_iff.mp (Option.mem_toList.mp hmethod)
    rfl

/-! Trees of chunks -/

/-- The chunk is placed where its definition stands. -/
def IsPlacedIn (root : SyntaxTree) (piece : PlacedChunk) : Prop :=
  ∃ tree, root.at? piece.place = some tree ∧ piece.chunk.kind ≠ .fileLevel ∧
    piece.chunk.content = outdented tree

theorem isPlacedIn_below {root inner : SyntaxTree} {place : List Nat}
    (hplace : root.at? place = some inner) {piece : PlacedChunk} (hpiece : IsPlacedIn inner piece) :
    IsPlacedIn root (below place piece) := by
  obtain ⟨tree, htree, hdefinition⟩ := hpiece
  refine ⟨tree, ?_, hdefinition⟩
  rw [below, SyntaxTree.at?_append, hplace]
  exact htree

theorem isPlacedIn_spread {root : SyntaxTree} {pieces : SyntaxTree → List PlacedChunk}
    (hpieces : ∀ tree, ∀ piece ∈ pieces tree, IsPlacedIn tree piece) {piece : PlacedChunk}
    (hmem : piece ∈ spread pieces 0 root.children) : IsPlacedIn root piece := by
  obtain ⟨index, tree, inner, hchild, hinner, rfl⟩ := exists_of_mem_spread hmem
  refine isPlacedIn_below ?_ (hpieces tree inner hinner)
  rw [SyntaxTree.at?_cons, Nat.zero_add, hchild]
  rfl

theorem isPlacedIn_placedMethod {file path : String} {parent : String × String}
    {member : SyntaxTree} {piece : PlacedChunk}
    (hmem : piece ∈ placedMethod file path parent member) : IsPlacedIn member piece := by
  obtain ⟨chunk, hmethod, rfl⟩ := List.mem_map.mp hmem
  obtain ⟨method, name, -, -, -, rfl⟩ := methodOf?_eq_some_iff.mp (Option.mem_toList.mp hmethod)
  exact ⟨member, rfl, nofun, rfl⟩

theorem isPlacedIn_placedStatement {file path : String} {statement : SyntaxTree}
    {piece : PlacedChunk} (hmem : piece ∈ placedStatement file path statement) :
    IsPlacedIn statement piece := by
  cases hdefinition : definitionOf? statement with
  | none =>
      rw [placedStatement, hdefinition] at hmem
      cases hmem
  | some definition =>
      rw [placedStatement, hdefinition] at hmem
      dsimp only at hmem
      split at hmem
      · cases hmem
      · split at hmem
        · cases List.mem_singleton.mp hmem
          exact ⟨statement, rfl, nofun, rfl⟩
        · rcases List.mem_cons.mp hmem with rfl | hmethod
          · exact ⟨statement, rfl, nofun, rfl⟩
          · obtain ⟨inner, hinner, rfl⟩ := List.mem_map.mp hmethod
            refine isPlacedIn_below (at?_definitionPlace hdefinition) ?_
            unfold placedMethods at hinner
            split at hinner
            · cases hinner
            · next body hbody =>
                obtain ⟨other, hother, rfl⟩ := List.mem_map.mp hinner
                exact isPlacedIn_below (SyntaxTree.at?_placeOf hbody)
                  (isPlacedIn_spread (fun _ _ => isPlacedIn_placedMethod) hother)

theorem isPlacedIn_of_mem_placed {file path source : String} {root : SyntaxTree}
    {piece : PlacedChunk} (hmem : piece ∈ placed file path source root) :
    piece = { place := [], chunk := ofFileLevel file path source root } ∨
      IsPlacedIn root piece := by
  rcases List.mem_append.mp hmem with hfile | hstatement
  · split at hfile
    · exact .inl (List.mem_singleton.mp hfile)
    · cases hfile
  · exact .inr (isPlacedIn_spread (fun _ _ => isPlacedIn_placedStatement) hstatement)

end Chunk

/-! Counting the calls at a site -/

namespace PlacedChunk

/-- How many calls the chunk has from the node at the site of the file. -/
def callsAt (file : FileContext) (root : SyntaxTree) (site : List Nat) (piece : PlacedChunk) :
    Nat :=
  match siteBelow? piece.place site, root.at? piece.place with
  | some rest, some tree => Reference.countCalls (Reference.madeIn piece.chunk file tree rest)
  | _, _ => 0

/-- The calls from the site in the chunks of the selected kinds. -/
def total (select : ChunkKind → Bool) (file : FileContext) (root : SyntaxTree) (site : List Nat)
    (pieces : List PlacedChunk) : Nat :=
  sumOf ((pieces.filter fun piece => select piece.chunk.kind).map (callsAt file root site))

theorem callsAt_root (file : FileContext) (root : SyntaxTree) (site : List Nat) (chunk : Chunk) :
    callsAt file root site { place := [], chunk } =
      Reference.countCalls (Reference.madeIn chunk file root site) := rfl

theorem callsAt_below {root inner : SyntaxTree} {place : List Nat}
    (hplace : root.at? place = some inner) (file : FileContext) (rest : List Nat)
    (piece : PlacedChunk) :
    callsAt file root (place ++ rest) (below place piece) = callsAt file inner rest piece := by
  have hsite : siteBelow? (place ++ piece.place) (place ++ rest) =
      siteBelow? piece.place rest := by
    refine Option.ext fun site => ?_
    rw [siteBelow?_eq_some_iff, siteBelow?_eq_some_iff, List.append_assoc,
      List.append_cancel_left_eq]
  have htree : root.at? (place ++ piece.place) = inner.at? piece.place := by
    rw [SyntaxTree.at?_append, hplace]
    rfl
  rw [callsAt, callsAt, below, hsite, htree]

theorem callsAt_below_of_none {place site : List Nat} (hother : siteBelow? place site = none)
    (file : FileContext) (root : SyntaxTree) (piece : PlacedChunk) :
    callsAt file root site (below place piece) = 0 := by
  have hnone : siteBelow? (place ++ piece.place) site = none := by
    refine Option.eq_none_iff_forall_ne_some.mpr fun rest hrest => ?_
    rw [siteBelow?_eq_some_iff, List.append_assoc, ← siteBelow?_eq_some_iff, hother] at hrest
    cases hrest
  rw [callsAt, below, hnone]

section

variable (select : ChunkKind → Bool) (file : FileContext)

theorem total_nil (root : SyntaxTree) (site : List Nat) : total select file root site [] = 0 := rfl

theorem total_cons (root : SyntaxTree) (site : List Nat) (piece : PlacedChunk)
    (rest : List PlacedChunk) :
    total select file root site (piece :: rest) =
      (if select piece.chunk.kind then callsAt file root site piece else 0) +
        total select file root site rest := by
  unfold total
  cases hselect : select piece.chunk.kind <;> simp [hselect]

theorem total_cons_of_selected {piece : PlacedChunk} (hselect : select piece.chunk.kind = true)
    (root : SyntaxTree) (site : List Nat) (rest : List PlacedChunk) :
    total select file root site (piece :: rest) =
      callsAt file root site piece + total select file root site rest := by
  rw [total_cons, if_pos hselect]

theorem total_cons_of_not_selected {piece : PlacedChunk}
    (hselect : select piece.chunk.kind = false) (root : SyntaxTree) (site : List Nat)
    (rest : List PlacedChunk) :
    total select file root site (piece :: rest) = total select file root site rest := by
  rw [total_cons, hselect, if_neg Bool.false_ne_true, Nat.zero_add]

theorem total_append (root : SyntaxTree) (site : List Nat) (first second : List PlacedChunk) :
    total select file root site (first ++ second) =
      total select file root site first + total select file root site second := by
  rw [total, List.filter_append, List.map_append, sumOf_append]
  rfl

theorem total_eq_zero {root : SyntaxTree} {site : List Nat} {pieces : List PlacedChunk}
    (hnone : ∀ piece ∈ pieces, select piece.chunk.kind = true → callsAt file root site piece = 0) :
    total select file root site pieces = 0 := by
  induction pieces with
  | nil => rfl
  | cons piece rest ih =>
      obtain ⟨hpiece, hrest⟩ := List.forall_mem_cons.mp hnone
      rw [total_cons, ih hrest]
      split
      · next hselect => rw [hpiece hselect]
      · rfl

theorem total_below {root inner : SyntaxTree} {place : List Nat}
    (hplace : root.at? place = some inner) (rest : List Nat) (pieces : List PlacedChunk) :
    total select file root (place ++ rest) (pieces.map (below place)) =
      total select file inner rest pieces := by
  induction pieces with
  | nil => rfl
  | cons piece others ih =>
      rw [List.map_cons, total_cons, total_cons, ih, callsAt_below hplace]
      rfl

theorem total_below_of_none {place site : List Nat} (hother : siteBelow? place site = none)
    (root : SyntaxTree) (pieces : List PlacedChunk) :
    total select file root site (pieces.map (below place)) = 0 := by
  refine total_eq_zero select file fun piece hmem _ => ?_
  obtain ⟨inner, -, rfl⟩ := List.mem_map.mp hmem
  exact callsAt_below_of_none hother file root inner

/-- A site below one child has no calls in the chunks of the children behind it. -/
theorem total_spread_of_lt {index start : Nat} (hlt : index < start) (root : SyntaxTree)
    (rest : List Nat) (pieces : SyntaxTree → List PlacedChunk) (trees : List SyntaxTree) :
    total select file root (index :: rest) (spread pieces start trees) = 0 := by
  induction trees generalizing start with
  | nil => rfl
  | cons tree others ih =>
      have hother : siteBelow? [start] (index :: rest) = none := if_neg (by omega)
      rw [spread, total_append, total_below_of_none select file hother, ih (by omega)]

theorem total_spread {root child : SyntaxTree} {start index : Nat} {trees : List SyntaxTree}
    (htrees : ∀ later, root.children[start + later]? = trees[later]?)
    (hchild : trees[index]? = some child) (rest : List Nat)
    (pieces : SyntaxTree → List PlacedChunk) :
    total select file root ((start + index) :: rest) (spread pieces start trees) =
      total select file child rest (pieces child) := by
  induction trees generalizing start index with
  | nil => cases hchild
  | cons tree others ih =>
      have hothers : ∀ later, root.children[start + 1 + later]? = others[later]? := by
        intro later
        rw [Nat.add_assoc, Nat.add_comm 1]
        exact htrees (later + 1)
      rw [spread, total_append]
      cases index with
      | zero =>
          obtain rfl : tree = child := by simpa using hchild
          have hplace : root.at? [start] = some tree := by
            have hstart : root.children[start]? = some tree := by simpa using htrees 0
            rw [SyntaxTree.at?_cons, hstart]
            rfl
          have hbehind := total_spread_of_lt select file (Nat.lt_succ_self start) root rest pieces
            others
          rw [Nat.add_zero, hbehind]
          exact total_below select file hplace rest (pieces tree)
      | succ index =>
          have hother : siteBelow? [start] ((start + (index + 1)) :: rest) = none :=
            if_neg (by omega)
          have hlater := ih hothers (by simpa using hchild)
          rw [total_below_of_none select file hother, Nat.zero_add, ← hlater]
          congr 2
          omega

theorem total_children {root child : SyntaxTree} {index : Nat}
    (hchild : root.children[index]? = some child) (rest : List Nat)
    (pieces : SyntaxTree → List PlacedChunk) :
    total select file root (index :: rest) (spread pieces 0 root.children) =
      total select file child rest (pieces child) := by
  have hfrom : ∀ later, root.children[0 + later]? = root.children[later]? :=
    fun later => congrArg (root.children[·]?) (Nat.zero_add later)
  have hall := total_spread select file hfrom hchild rest pieces
  rwa [Nat.zero_add] at hall

end

end PlacedChunk

end CodeGraph
