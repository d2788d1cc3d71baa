import CodeGraph.Proofs.Syntax.Grammatical

namespace CodeGraph.Syntax

/-! Places in a tree.  A node is named by its address, the positions of the children on the way to
it. -/

/-- The address of the site below the node at the place, if it is there. -/
def siteBelow? : List Nat → List Nat → Option (List Nat)
  | [], site => some site
  | _ :: _, [] => none
  | index :: place, next :: site => if index = next then siteBelow? place site else none

theorem siteBelow?_eq_some_iff {place site rest : List Nat} :
    siteBelow? place site = some rest ↔ site = place ++ rest := by
  induction place generalizing site with
  | nil => simp [siteBelow?]
  | cons index place ih =>
      cases site with
      | nil => simp [siteBelow?]
      | cons next site =>
          rw [siteBelow?, List.cons_append, List.cons_eq_cons]
          split
          · next hsame => simp [ih, hsame]
          · next hother => simp [Ne.symm hother]

namespace SyntaxTree

def at? (tree : SyntaxTree) : List Nat → Option SyntaxTree
  | [] => some tree
  | index :: rest =>
      match tree.children[index]? with
      | some child => child.at? rest
      | none => none

@[simp] theorem at?_nil (tree : SyntaxTree) : tree.at? [] = some tree := rfl

theorem at?_cons (tree : SyntaxTree) (index : Nat) (rest : List Nat) :
    tree.at? (index :: rest) = tree.children[index]?.bind (·.at? rest) := by
  rw [at?]
  cases tree.children[index]? <;> rfl

theorem exists_child_of_at? {tree inner : SyntaxTree} {index : Nat} {rest : List Nat}
    (hinner : tree.at? (index :: rest) = some inner) :
    ∃ child, tree.children[index]? = some child ∧ child.at? rest = some inner := by
  rw [at?_cons] at hinner
  exact Option.bind_eq_some_iff.mp hinner

/-- A node of the kind stands on the way to the site, the site itself included. -/
def isWithin (kind : Kind) (tree : SyntaxTree) : List Nat → Bool
  | [] => tree.kind == kind
  | index :: rest =>
      tree.kind == kind ||
        match tree.children[index]? with
        | some child => child.isWithin kind rest
        | none => false

mutual

/-- The addresses of the node and everything below it, each before those below. -/
def addresses : SyntaxTree → List (List Nat)
  | node _ _ _ _ _ children => [] :: addressesOfAll 0 children

def addressesOfAll (index : Nat) : List SyntaxTree → List (List Nat)
  | [] => []
  | tree :: rest => tree.addresses.map (index :: ·) ++ addressesOfAll (index + 1) rest

end

/-- The address of the same place below the next tree in a list. -/
def shift : List Nat → List Nat
  | [] => []
  | index :: rest => (index + 1) :: rest

theorem addressesOfAll_succ (index : Nat) (trees : List SyntaxTree) :
    addressesOfAll (index + 1) trees = (addressesOfAll index trees).map shift := by
  induction trees generalizing index with
  | nil => simp only [addressesOfAll, List.map_nil]
  | cons tree rest ih =>
      simp only [addressesOfAll, List.map_append, List.map_map, ih (index + 1)]
      rfl

theorem at?_append (tree : SyntaxTree) (place rest : List Nat) :
    tree.at? (place ++ rest) = (tree.at? place).bind (·.at? rest) := by
  induction place generalizing tree with
  | nil => rfl
  | cons index place ih =>
      rw [List.cons_append, at?_cons, at?_cons, Option.bind_assoc]
      exact congrArg (Option.bind _) (funext ih)

theorem cons_of_mem_addressesOfAll {site : List Nat} {index : Nat} {trees : List SyntaxTree}
    (hmem : site ∈ addressesOfAll index trees) : ∃ first rest, site = first :: rest := by
  induction trees generalizing index with
  | nil =>
      rw [addressesOfAll] at hmem
      cases hmem
  | cons tree rest ih =>
      rw [addressesOfAll] at hmem
      rcases List.mem_append.mp hmem with hfirst | hrest
      · obtain ⟨inner, -, rfl⟩ := List.mem_map.mp hfirst
        exact ⟨index, inner, rfl⟩
      · exact ih hrest

/-- The address of the first child in the given part. -/
def placeOf (tree : SyntaxTree) (role : Role) : List Nat :=
  (tree.children.findIdx? fun child => child.role == some role).toList

theorem placeOf_of_part? {tree child : SyntaxTree} {role : Role}
    (hpart : tree.part? role = some child) :
    ∃ index, tree.placeOf role = [index] ∧ tree.children[index]? = some child := by
  obtain ⟨hrole, index, hlt, hchild, hfirst⟩ := List.find?_eq_some_iff_getElem.mp hpart
  refine ⟨index, ?_, List.getElem?_eq_some_iff.mpr ⟨hlt, hchild⟩⟩
  have hindex : (tree.children.findIdx? fun child => child.role == some role) = some index :=
    List.findIdx?_eq_some_iff_getElem.mpr ⟨hlt, hchild ▸ hrole, fun other hother => by
      simpa using hfirst other hother⟩
  rw [placeOf, hindex]
  rfl

theorem at?_placeOf {tree child : SyntaxTree} {role : Role} (hpart : tree.part? role = some child) :
    tree.at? (tree.placeOf role) = some child := by
  obtain ⟨index, hplace, hchild⟩ := placeOf_of_part? hpart
  rw [hplace, at?_cons, hchild]
  rfl

theorem isWithin_child {tree child : SyntaxTree} {kind : Kind} (hkind : tree.kind ≠ kind)
    {index : Nat} (hchild : tree.children[index]? = some child) (rest : List Nat) :
    tree.isWithin kind (index :: rest) = child.isWithin kind rest := by
  have hother : (tree.kind == kind) = false := beq_eq_false_iff_ne.mpr hkind
  rw [isWithin, hchild, hother]
  rfl

theorem isWithin_placeOf {tree child : SyntaxTree} {kind : Kind} (hkind : tree.kind ≠ kind)
    {role : Role} (hpart : tree.part? role = some child) (rest : List Nat) :
    tree.isWithin kind (tree.placeOf role ++ rest) = child.isWithin kind rest := by
  obtain ⟨index, hplace, hchild⟩ := placeOf_of_part? hpart
  rw [hplace]
  exact isWithin_child hkind hchild rest

theorem isWithin_append {tree inner : SyntaxTree} {place : List Nat}
    (hinner : tree.at? place = some inner) (kind : Kind) (rest : List Nat) :
    tree.isWithin kind (place ++ rest) =
      (tree.isWithin kind place || inner.isWithin kind rest) := by
  induction place generalizing tree with
  | nil =>
      cases hinner
      cases rest <;> simp [isWithin]
  | cons index place ih =>
      obtain ⟨child, hchild, hbelow⟩ := exists_child_of_at? hinner
      rw [List.cons_append, isWithin, isWithin, hchild]
      dsimp only
      rw [ih hbelow, Bool.or_assoc]

/-- Keywords, operators and comments have nothing else below them. -/
theorem isTrivia_of_at? {tree inner : SyntaxTree} (htree : tree.Grammatical)
    (htrivia : tree.kind.isTrivia = true) {site : List Nat} (hinner : tree.at? site = some inner) :
    inner.kind.isTrivia = true := by
  induction site generalizing tree with
  | nil =>
      cases hinner
      exact htrivia
  | cons index rest ih =>
      obtain ⟨child, hchild, hbelow⟩ := exists_child_of_at? hinner
      have hmem := List.mem_of_getElem? hchild
      have hformed := htree.formed
      have hchildTrivia : child.kind.isTrivia = true := by
        rw [Formed] at hformed
        simp only [Kind.isTrivia, List.contains_eq_mem, List.mem_cons, List.not_mem_nil, or_false,
          decide_eq_true_eq] at htrivia
        rcases htrivia with hkind | hkind | hkind <;> rw [hkind] at hformed <;>
          exact hformed child hmem
      exact ih (htree.child hmem) hchildTrivia hbelow

end SyntaxTree

end CodeGraph.Syntax
