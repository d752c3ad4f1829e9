import Ttm.Symbol

/-!
Scopes by bracket depth. Each opening bracket saves the current scope and enters one, each closing
bracket goes back; the depth is bounded.
-/

namespace Ttm

/-- `saved` holds the scopes to go back to, the innermost first; `depth` is their number. -/
structure Scopes where
  current : String
  saved : List String
  depth : Nat
  maxDepth : Nat
  deepest : Nat
  depth_eq : depth = saved.length
  deriving DecidableEq, Repr

namespace Scopes
variable (s : Scopes)

inductive Fault
  | underflow
  | tooDeep (max : Nat)
  deriving DecidableEq, Repr

def global (maxDepth : Nat) : Scopes :=
  ⟨Symbol.globalScope, [], 0, maxDepth, 0, List.length_nil.symm⟩

def isGlobal : Bool := s.current == Symbol.globalScope

def enter (scope : String) : Except Fault Scopes :=
  if s.maxDepth ≤ s.depth then .error (.tooDeep s.maxDepth)
  else .ok
    { s with
      current := scope
      saved := s.current :: s.saved
      depth := s.depth + 1
      deepest := max s.deepest (s.depth + 1)
      depth_eq := by simp [s.depth_eq] }

def exit : Except Fault Scopes :=
  match h : s.saved with
  | [] => .error .underflow
  | scope :: rest => .ok
    { s with
      current := scope
      saved := rest
      depth := s.depth - 1
      depth_eq := by simp [s.depth_eq, h] }

/-- The saved scopes stay as they are. -/
def resetToGlobal : Scopes := { s with current := Symbol.globalScope }

end Scopes
end Ttm
