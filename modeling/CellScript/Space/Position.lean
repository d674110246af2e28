/-
Module: CellScript.Space.Position
Purpose: Cells of the grid are addressed by three 32-bit coordinates that wrap around.
Main exports: Position, Position.text
-/
import Std.Data.TreeMap
import CellScript.Text.Integer

namespace CellScript

open Std

/-- The address of a cell. A displacement between two cells has the same type. -/
structure Position where
  x : Int32
  y : Int32
  z : Int32
deriving DecidableEq, Repr, Inhabited

namespace Position

/-- Coordinates are compared in turn, so that positions can be keys of a sorted map. -/
instance : Ord Position where
  compare := compareLex (compareOn x) (compareLex (compareOn y) (compareOn z))

instance : TransOrd Position :=
  inferInstanceAs (TransCmp (compareLex (compareOn x) (compareLex (compareOn y) (compareOn z))))

instance : LawfulEqOrd Position where
  eq_of_compare {a b} h := by
    obtain ⟨hx, hyz⟩ := Ordering.then_eq_eq.mp h
    obtain ⟨hy, hz⟩ := Ordering.then_eq_eq.mp hyz
    cases a
    cases b
    have hx := LawfulEqOrd.eq_of_compare (α := Int32) hx
    have hy := LawfulEqOrd.eq_of_compare (α := Int32) hy
    have hz := LawfulEqOrd.eq_of_compare (α := Int32) hz
    simp_all

/-- Coordinatewise sum; each coordinate wraps. -/
instance : Add Position where
  add a b := ⟨a.x + b.x, a.y + b.y, a.z + b.z⟩

/-- Coordinatewise difference; each coordinate wraps. -/
instance : Sub Position where
  sub a b := ⟨a.x - b.x, a.y - b.y, a.z - b.z⟩

/-- A displacement taken `n` times. -/
def scale (a : Position) (n : Int32) : Position :=
  ⟨a.x * n, a.y * n, a.z * n⟩

/-- A position as it stands in messages. -/
def text (p : Position) : String :=
  "(" ++ Text.integerText p.x.toInt ++ ", " ++ Text.integerText p.y.toInt ++ ", "
    ++ Text.integerText p.z.toInt ++ ")"

end Position

end CellScript
