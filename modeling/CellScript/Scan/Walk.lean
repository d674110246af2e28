/-
Module: CellScript.Scan.Walk
Purpose: A walk reads the tokens of one line of cells, turning at redirectors.
Main exports: ScanError, Heading, Step, Walk, Walk.next, Walk.trail
-/
import Std.Data.TreeSet
import CellScript.Diagnostic
import CellScript.Token.Symbols

namespace CellScript

open Std

/-- Why a program cannot be read from the grid. -/
inductive ScanError where
  | malformedRedirector (pos : Position)
  | redirectCycle (pos : Position) (heading : Direction)
  | depthExceeded (pos : Position) (limit : Nat)
deriving DecidableEq, Repr

namespace ScanError

/-- The cell that an error blames. -/
def pos : ScanError → Position
  | malformedRedirector p => p
  | redirectCycle p _ => p
  | depthExceeded p _ => p

/-- The error in one line. -/
def text : ScanError → String
  | malformedRedirector p => "error at " ++ p.text ++ ": redirector has no facing"
  | redirectCycle p heading =>
      "error at " ++ p.text ++ ": redirectors form a cycle (heading " ++ heading.name ++ ")"
  | depthExceeded p limit =>
      "error at " ++ p.text ++ ": side-scans nested deeper than " ++ limit.repr

/-- What went wrong, without the place. -/
def message : ScanError → String
  | malformedRedirector _ => "redirector has no facing"
  | redirectCycle _ heading => "redirectors form a cycle (heading " ++ heading.name ++ ")"
  | depthExceeded _ limit => "side-scans nested deeper than " ++ limit.repr

/-- The error as a report. -/
def diagnostic (e : ScanError) : Diagnostic :=
  .atPosition .scan e.message e.pos

end ScanError

/-- Where a walk stands and where it is going. -/
structure Heading where
  pos : Position
  dir : Direction
deriving DecidableEq, Repr, Inhabited

namespace Heading

instance : Ord Heading where
  compare := compareLex (compareOn pos) (compareOn fun h => h.dir.rank)

instance : TransOrd Heading :=
  inferInstanceAs (TransCmp (compareLex (compareOn pos) (compareOn fun h : Heading => h.dir.rank)))

instance : LawfulEqOrd Heading where
  eq_of_compare {a b} h := by
    obtain ⟨hpos, hdir⟩ := Ordering.then_eq_eq.mp h
    have hpos : a.pos = b.pos := LawfulEqOrd.eq_of_compare hpos
    have hdir : a.dir = b.dir := Direction.rank_injective (LawfulEqOrd.eq_of_compare hdir)
    cases a
    cases b
    simp_all

/-- One cell on in the same direction. -/
def ahead (h : Heading) : Heading :=
  { h with pos := h.pos.step h.dir }

/-- One cell on in a new direction. -/
def turn (h : Heading) (facing : Direction) : Heading :=
  ⟨h.pos.step facing, facing⟩

end Heading

/-- A token together with the direction in which the walk read it. -/
structure Step where
  token : Token
  heading : Direction
deriving DecidableEq, Repr, Inhabited

/-- A walk in progress. It has looked at every heading in `visited`. -/
structure Walk where
  here : Heading
  visited : TreeSet Heading := ∅
  finished : Bool := false

/-- What looking at one cell leads to. -/
inductive Walk.Move where
  | emit (step : Step)
  | turn
  | halt (fault : Option ScanError)
deriving DecidableEq, Repr

namespace Walk

/-- A walk that has not looked at any cell. -/
def start (p : Position) (d : Direction) : Walk :=
  { here := ⟨p, d⟩ }

/-- Look at the current cell and go on from it. A heading seen before means that the walk would
never end. Once a walk has halted it stays where it is. -/
def move (g : Grid) (w : Walk) : Move × Walk :=
  if w.finished then
    (.halt none, w)
  else if w.visited.contains w.here then
    (.halt (some (.redirectCycle w.here.pos w.here.dir)), { w with finished := true })
  else
    let seen := { w with visited := w.visited.insert w.here }
    match (g.symbolAt w.here.pos).meaning with
    | .token kind =>
        (.emit ⟨⟨kind, w.here.pos⟩, w.here.dir⟩, { seen with here := w.here.ahead })
    | .redirector =>
        match g.facingAt w.here.pos with
        | some facing => (.turn, { seen with here := w.here.turn facing })
        | none => (.halt (some (.malformedRedirector w.here.pos)), { seen with finished := true })
    | .unknown => (.halt none, { seen with finished := true })

/-- Move until a token is read or the walk halts, at most `fuel` cells far. -/
def nextWithin (g : Grid) : Nat → Walk → Option (Except ScanError Step) × Walk
  | 0, w => (none, { w with finished := true })
  | fuel + 1, w =>
      match w.move g with
      | (.emit step, w) => (some (.ok step), w)
      | (.turn, w) => w.nextWithin g fuel
      | (.halt (some e), w) => (some (.error e), w)
      | (.halt none, w) => (none, w)

/-- More headings than a walk can look at: it stands on a stored cell each time but the last, and
looks at each such cell at most once for each direction. -/
def reach (g : Grid) : Nat :=
  6 * g.size + 2

/-- The next token of a walk, or why there is none. -/
def next (g : Grid) (w : Walk) : Option (Except ScanError Step) × Walk :=
  w.nextWithin g (reach g)

/-- The steps of a walk to its end, at most `fuel` many, and the error that ended it. -/
def trailWithin (g : Grid) : Nat → Walk → List Step × Option ScanError
  | 0, _ => ([], none)
  | fuel + 1, w =>
      match w.next g with
      | (some (.ok step), w) =>
          let (steps, fault) := w.trailWithin g fuel
          (step :: steps, fault)
      | (some (.error e), _) => ([], some e)
      | (none, _) => ([], none)

/-- All steps of the walk from a position, and the error that ended it. -/
def trail (g : Grid) (p : Position) (d : Direction) : List Step × Option ScanError :=
  (start p d).trailWithin g (reach g)

end Walk

end CellScript
