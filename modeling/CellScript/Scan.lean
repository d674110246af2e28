/-
Module: CellScript.Scan
Purpose: Reading a program from the grid: a walk, with side-scans spliced into its tokens.
Main exports: scan, defaultScanDepth
-/
import CellScript.Scan.Walk

namespace CellScript

namespace Scan

/-- The tokens of a side-scan into the neighbour of `token` on one side. Nothing lies on a side
whose cell means nothing. `deeper` scans one level down, and is absent at the limit. -/
def side (g : Grid) (limit : Nat)
    (deeper : Option (Position → Direction → Except ScanError (List Token)))
    (token : Token) (d : Direction) : Except ScanError (List Token) :=
  let neighbour := token.pos.step d
  match (g.symbolAt neighbour).meaning with
  | .unknown => .ok []
  | _ =>
      match deeper with
      | some scan => scan neighbour d
      | none => .error (.depthExceeded neighbour limit)

/-- The tokens of the side-scans around a step, in the order of its sides. -/
def sides (g : Grid) (limit : Nat)
    (deeper : Option (Position → Direction → Except ScanError (List Token)))
    (token : Token) : List Direction → Except ScanError (List Token)
  | [] => .ok []
  | d :: rest => do
      let first ← side g limit deeper token d
      let others ← sides g limit deeper token rest
      return first ++ others

/-- The tokens of a walk's steps, each followed by its side-scans, and then the walk's own error.
The first error in reading order is the one reported. -/
def splice (g : Grid) (limit : Nat)
    (deeper : Option (Position → Direction → Except ScanError (List Token)))
    (fault : Option ScanError) : List Step → Except ScanError (List Token)
  | [] =>
      match fault with
      | some e => .error e
      | none => .ok []
  | step :: rest => do
      let around ←
        if step.token.kind.startsSideScan then
          sides g limit deeper step.token step.heading.sides
        else
          .ok []
      let others ← splice g limit deeper fault rest
      return step.token :: (around ++ others)

/-- Scan from a position with `levels` levels of side-scans to spare. -/
def within (g : Grid) (limit : Nat) :
    Nat → Position → Direction → Except ScanError (List Token)
  | 0, p, d =>
      let (steps, fault) := Walk.trail g p d
      splice g limit none fault steps
  | levels + 1, p, d =>
      let (steps, fault) := Walk.trail g p d
      splice g limit (some (within g limit levels)) fault steps

end Scan

/-- How deep side-scans nest unless a run says otherwise. -/
def defaultScanDepth : Nat := 64

/-- The tokens of the program that starts at a position, with side-scans nested at most `limit`
deep. -/
def scan (g : Grid) (limit : Nat) (p : Position) (d : Direction) :
    Except ScanError (List Token) :=
  Scan.within g limit limit p d

end CellScript
