/-
Module: CellScript.Run.Scopes
Purpose: Variables with the depth of the block that made them.
Main exports: Binding, Scopes, Scopes.enter, Scopes.exit, Scopes.get?, Scopes.assign
-/
import CellScript.Value

namespace CellScript

/-- A variable of the block at some depth. -/
structure Binding where
  index : Nat
  value : Value
  depth : Nat
deriving DecidableEq, Repr, Inhabited

/-- All variables that can be seen, the newest first, and the depth of the current block. A
variable of an inner block hides one with the same index further out. -/
structure Scopes where
  bindings : List Binding := []
  depth : Nat := 0
deriving DecidableEq, Repr, Inhabited

namespace Scopes

/-- Enter a block. -/
def enter (s : Scopes) : Scopes :=
  { s with depth := s.depth + 1 }

/-- Go back to the block at a depth; variables made deeper are gone. -/
def exit (s : Scopes) (depth : Nat) : Scopes :=
  { bindings := s.bindings.filter fun b => b.depth ≤ depth, depth }

/-- The value of the newest variable with an index. -/
def get? (s : Scopes) (index : Nat) : Option Value :=
  (s.bindings.find? fun b => b.index == index).map Binding.value

/-- Whether a binding is the current block's own variable with an index. -/
def owns (s : Scopes) (index : Nat) (b : Binding) : Bool :=
  b.index == index && b.depth == s.depth

/-- Set the current block's own variable with an index, which is made if there is none. -/
def assign (s : Scopes) (index : Nat) (value : Value) : Scopes :=
  if s.bindings.any (s.owns index) then
    { s with bindings := s.bindings.map fun b => if s.owns index b then { b with value } else b }
  else
    { s with bindings := ⟨index, value, s.depth⟩ :: s.bindings }

/-- The number of variables. -/
def size (s : Scopes) : Nat :=
  s.bindings.length

/-- Whether there is no variable. -/
def isEmpty (s : Scopes) : Bool :=
  s.bindings.isEmpty

end Scopes

end CellScript
