import CodeGraph.Files.Tree

namespace CodeGraph

/-! What can go wrong. -/

inductive Error where
  | parseFailure (chunk reason : String)
  | unsupported (what : String)
  | files (reason : FileError)
  /-- A document that does not have the form it should have. -/
  | malformed
  | algorithm (reason : String)
deriving DecidableEq, Repr, Inhabited

def Error.message : Error → String
  | parseFailure chunk reason => "Failed to parse chunk " ++ chunk ++ ": " ++ reason
  | unsupported what => "Unsupported operation: " ++ what
  | files reason => "Graph I/O error: " ++ reason.message
  | malformed => "Graph serialization error: malformed document"
  | algorithm reason => "Community detection failed: " ++ reason

/-- The message, and the reason behind it once more where there is one. -/
def Error.chain : Error → String
  | files reason => (files reason).message ++ ": " ++ reason.message
  | reason => reason.message

def Error.ofFiles {α : Type} : Except FileError α → Except Error α
  | .ok value => .ok value
  | .error reason => .error (.files reason)

def Error.ofOption {α : Type} : Option α → Except Error α
  | some value => .ok value
  | none => .error .malformed

end CodeGraph
