/-
Module: CellScript.Space.Direction
Purpose: The six axis directions, and moving a position along one.
Main exports: Direction, Direction.vector, Direction.sides, Position.step, Position.advance
-/
import CellScript.Space.Position

namespace CellScript

/-- A heading along one axis of the grid. -/
inductive Direction where
  | down
  | up
  | north
  | south
  | west
  | east
deriving DecidableEq, Repr, Inhabited

namespace Direction

/-- All directions, in the order in which neighbours are visited. -/
def all : List Direction :=
  [down, up, north, south, west, east]

/-- The displacement of one step. -/
def vector : Direction → Position
  | down => ⟨0, -1, 0⟩
  | up => ⟨0, 1, 0⟩
  | north => ⟨0, 0, -1⟩
  | south => ⟨0, 0, 1⟩
  | west => ⟨-1, 0, 0⟩
  | east => ⟨1, 0, 0⟩

/-- The direction that undoes a step. -/
def opposite : Direction → Direction
  | down => up
  | up => down
  | north => south
  | south => north
  | west => east
  | east => west

/-- The four directions across a heading, in visiting order. -/
def sides (d : Direction) : List Direction :=
  all.filter fun side => side != d && side != d.opposite

/-- The name of a direction. -/
def name : Direction → String
  | down => "down"
  | up => "up"
  | north => "north"
  | south => "south"
  | west => "west"
  | east => "east"

/-- The direction with a given name. -/
def ofName? (s : String) : Option Direction :=
  all.find? fun d => d.name == s

/-- The place of a direction in `all`; orders states of a walk. -/
def rank : Direction → Nat
  | down => 0
  | up => 1
  | north => 2
  | south => 3
  | west => 4
  | east => 5

theorem rank_injective {a b : Direction} (h : a.rank = b.rank) : a = b := by
  cases a <;> cases b <;> simp_all [rank]

end Direction

/-- The neighbour of a position in a direction. -/
def Position.step (p : Position) (d : Direction) : Position :=
  p + d.vector

/-- The position `n` cells on in a direction. -/
def Position.advance (p : Position) (d : Direction) (n : Int32) : Position :=
  p + d.vector.scale n

end CellScript
