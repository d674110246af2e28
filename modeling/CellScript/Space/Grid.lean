/-
Module: CellScript.Space.Grid
Purpose: A sparse grid of symbols, some of which face a direction.
Main exports: Symbol, Cell, Grid
-/
import CellScript.Space.Direction

namespace CellScript

open Std

/-- The material of a cell. -/
structure Symbol where
  name : String
deriving DecidableEq, Repr, Inhabited

namespace Symbol

/-- The symbol of every cell that holds nothing. -/
def air : Symbol :=
  ⟨"air"⟩

/-- Whether a symbol stands for an empty cell. -/
def isAir (s : Symbol) : Bool :=
  s == air

end Symbol

/-- What is stored at a position. -/
structure Cell where
  symbol : Symbol
  facing : Option Direction := none
deriving DecidableEq, Repr, Inhabited

/-- A grid stores finitely many cells; every other position holds air. -/
structure Grid where
  cells : TreeMap Position Cell
deriving Inhabited

namespace Grid

/-- The grid without cells. -/
def empty : Grid :=
  ⟨∅⟩

/-- The stored cell at a position. -/
def cell? (g : Grid) (p : Position) : Option Cell :=
  g.cells[p]?

/-- The symbol at a position, air where nothing is stored. -/
def symbolAt (g : Grid) (p : Position) : Symbol :=
  match g.cell? p with
  | some cell => cell.symbol
  | none => .air

/-- The facing at a position, if the cell has one. -/
def facingAt (g : Grid) (p : Position) : Option Direction :=
  (g.cell? p).bind Cell.facing

/-- Store a cell, in place of what was there. -/
def insert (g : Grid) (p : Position) (cell : Cell) : Grid :=
  ⟨g.cells.insert p cell⟩

/-- Store a symbol without facing. An air cell is stored like any other. -/
def place (g : Grid) (p : Position) (s : Symbol) : Grid :=
  g.insert p { symbol := s }

/-- Store a symbol that faces a direction. -/
def placeFacing (g : Grid) (p : Position) (s : Symbol) (d : Direction) : Grid :=
  g.insert p { symbol := s, facing := some d }

/-- Place symbols on a line from `p` on. Also gives the first position after the line. -/
def placeLine (g : Grid) (p : Position) (d : Direction) : List Symbol → Grid × Position
  | [] => (g, p)
  | s :: rest => (g.place p s).placeLine (p.step d) d rest

/-- Forget the cell at a position. -/
def remove (g : Grid) (p : Position) : Grid :=
  ⟨g.cells.erase p⟩

/-- Write a symbol: air clears the position, any other symbol is placed without facing. -/
def write (g : Grid) (p : Position) (s : Symbol) : Grid :=
  if s.isAir then g.remove p else g.place p s

/-- The number of stored cells. -/
def size (g : Grid) : Nat :=
  g.cells.size

/-- Whether no cell is stored. -/
def isEmpty (g : Grid) : Bool :=
  g.cells.isEmpty

end Grid

end CellScript
