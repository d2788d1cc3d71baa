import CodeGraph.Syntax.Kind
import CodeGraph.Syntax.Position

namespace CodeGraph.Syntax

/-! Concrete syntax trees.  Every lexeme of the text is a leaf, comments included, and a node
runs from the start of its first leaf to the end of its last. -/

inductive SyntaxTree where
  | node (kind : Kind) (role : Option Role) (start stop : Position) (text : String)
      (children : List SyntaxTree)
deriving Repr, Inhabited

namespace SyntaxTree

def kind : SyntaxTree → Kind
  | node kind .. => kind

/-- The part this node plays in its parent, if it has one. -/
def role : SyntaxTree → Option Role
  | node _ role .. => role

def start : SyntaxTree → Position
  | node _ _ start .. => start

def stop : SyntaxTree → Position
  | node _ _ _ stop .. => stop

/-- The source text from `start` to `stop`. -/
def text : SyntaxTree → String
  | node _ _ _ _ text _ => text

def children : SyntaxTree → List SyntaxTree
  | node _ _ _ _ _ children => children

section

variable (k : Kind) (r : Option Role) (a b : Position) (t : String) (cs : List SyntaxTree)

@[simp] theorem kind_node : (node k r a b t cs).kind = k := rfl
@[simp] theorem role_node : (node k r a b t cs).role = r := rfl
@[simp] theorem start_node : (node k r a b t cs).start = a := rfl
@[simp] theorem stop_node : (node k r a b t cs).stop = b := rfl
@[simp] theorem text_node : (node k r a b t cs).text = t := rfl
@[simp] theorem children_node : (node k r a b t cs).children = cs := rfl

end

def withRole (role : Role) : SyntaxTree → SyntaxTree
  | node kind _ start stop text children => node kind (some role) start stop text children

def withKind (kind : Kind) : SyntaxTree → SyntaxTree
  | node _ role start stop text children => node kind role start stop text children

@[simp] theorem children_withRole (tree : SyntaxTree) (role : Role) :
    (tree.withRole role).children = tree.children := by
  cases tree; rfl

/-- The first child in the given part. -/
def part? (tree : SyntaxTree) (role : Role) : Option SyntaxTree :=
  tree.children.find? fun child => child.role == some role

/-- All children in the given part, in order. -/
def parts (tree : SyntaxTree) (role : Role) : List SyntaxTree :=
  tree.children.filter fun child => child.role == some role

/-- The children other than keywords, operators and delimiters. -/
def namedChildren (tree : SyntaxTree) : List SyntaxTree :=
  tree.children.filter fun child => child.kind.isNamed

def firstNamed? (tree : SyntaxTree) : Option SyntaxTree :=
  tree.namedChildren.head?

/-- The text of the part, or nothing when the part is missing. -/
def partText (tree : SyntaxTree) (role : Role) : String :=
  ((tree.part? role).map text).getD ""

mutual

/-- The node and everything below it, each node before its children. -/
def preorder : SyntaxTree → List SyntaxTree
  | node kind role start stop text children =>
      node kind role start stop text children :: preorderAll children

def preorderAll : List SyntaxTree → List SyntaxTree
  | [] => []
  | tree :: rest => tree.preorder ++ preorderAll rest

end

@[simp] theorem preorder_node (k : Kind) (r : Option Role) (a b : Position) (t : String)
    (cs : List SyntaxTree) :
    (node k r a b t cs).preorder = node k r a b t cs :: preorderAll cs := by
  rw [preorder]

@[simp] theorem preorderAll_nil : preorderAll [] = [] := by
  rw [preorderAll]

@[simp] theorem preorderAll_cons (tree : SyntaxTree) (rest : List SyntaxTree) :
    preorderAll (tree :: rest) = tree.preorder ++ preorderAll rest := by
  rw [preorderAll]

end SyntaxTree

end CodeGraph.Syntax
