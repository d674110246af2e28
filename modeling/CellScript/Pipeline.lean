/-
Module: CellScript.Pipeline
Purpose: From a place in the grid to a finished run.
Main exports: RunConfig, RunError, compile, run
-/
import CellScript.Program.Parser
import CellScript.Run.Machine
import CellScript.Scan

namespace CellScript

/-- What can be set for a run. -/
structure RunConfig where
  maxScanDepth : UInt64 := 64
  gasLimit : UInt64 := 1000000
  maxStringLength : UInt64 := 1048576
  gotoEnabled : Bool := false
  errorLabel : String := "[LineBlock]"
deriving DecidableEq, Repr, Inhabited

/-- The limits that a program runs under. -/
def RunConfig.settings (c : RunConfig) : Settings where
  gasLimit := c.gasLimit.toNat
  maxStringLength := c.maxStringLength.toNat
  gotoEnabled := c.gotoEnabled

/-- Why a run failed, at any stage. -/
inductive RunError where
  | scan (e : ScanError)
  | parse (e : ParseError)
  | eval (e : EvalError)
deriving DecidableEq, Repr

namespace RunError

/-- The error in one line. -/
def text : RunError → String
  | scan e => e.text
  | parse e => e.text
  | eval e => e.text

/-- The error as a report. -/
def diagnostic : RunError → Diagnostic
  | scan e => e.diagnostic
  | parse e => e.diagnostic
  | eval e => e.diagnostic

/-- The cell that an error blames. -/
def pos? (e : RunError) : Option Position :=
  e.diagnostic.pos

end RunError

/-- The program that starts at a position. -/
def compile (c : RunConfig) (g : Grid) (p : Position) (d : Direction) :
    Except RunError Program := do
  let tokens ← (scan g c.maxScanDepth.toNat p d).mapError .scan
  (Program.parse g tokens).mapError .parse

/-- Compile the program at a position and run it. -/
def compileAndRun (c : RunConfig) (w : World) (p : Position) (d : Direction) :
    Except RunError Unit × World :=
  match compile c w.grid p d with
  | .error e => (.error e, w)
  | .ok program =>
      match program.run c.settings { world := w } with
      | (r, m) => (r.mapError .eval, m.world)

/-- Run the program at a position. An error is also emitted as a text, after the label for
errors. -/
def run (c : RunConfig) (w : World) (p : Position) (d : Direction) :
    Except RunError Unit × World :=
  match compileAndRun c w p d with
  | (.ok (), w) => (.ok (), w)
  | (.error e, w) => (.error e, w.emit (c.errorLabel ++ " " ++ e.text))

end CellScript
