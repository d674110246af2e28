/-
Module: CellScript.Proofs.Pipeline.Likeness
Purpose: Compiling from corresponding positions of grids that look alike.
Main exports: RunError.Alike, compile_alike
-/
import CellScript.Pipeline
import CellScript.Proofs.Parser.Likeness
import CellScript.Proofs.Scan.Likeness

namespace CellScript

/-- Corresponding errors of two compilations: each stage has its own. -/
inductive RunError.Alike (L : Likeness) (g : Grid) : RunError → RunError → Prop where
  | scan {e e' : ScanError} : e.Alike L g e' → Alike L g (.scan e) (.scan e')
  | parse {e e' : ParseError} : e.Alike L e' → Alike L g (.parse e) (.parse e')

/-- The programs at corresponding positions correspond, or so do the errors. -/
theorem compile_alike {L : Likeness} {g g' : Grid} (hg : L.Grids g g') (c : RunConfig)
    {p p' : Position} (hp : L.pos p p') (d : Direction) :
    Agree (RunError.Alike L g) (Program.Alike L) (compile c g p d) (compile c g' p' d) := by
  have hscan := scan_alike hg c.maxScanDepth.toNat hp d
  apply (hscan.mapError fun e e' he => RunError.Alike.scan he).bind
  intro tokens tokens' htokens
  exact (Program.parse_alike hg htokens).mapError fun e e' he => RunError.Alike.parse he

end CellScript
