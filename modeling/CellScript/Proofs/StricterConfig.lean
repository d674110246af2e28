/-
Module: CellScript.Proofs.StricterConfig
Purpose: Limits are conservative through all stages: a lower one leaves a run as it is, or it ends
  the run with an error of its own after a part of its effects.
Main exports: RunConfig.Stricter, RunConfig.Refuses, compile_of_stricter, run_of_stricter
-/
import CellScript.Pipeline
import CellScript.Proofs.Run.StricterSettings
import CellScript.Proofs.Scan.DepthLimit

namespace CellScript

namespace RunConfig

/-- Lower limits on side-scans and texts and perhaps no jumps, with the gas and the label as they
were. -/
structure Stricter (strict lax : RunConfig) : Prop where
  maxScanDepth : strict.maxScanDepth ≤ lax.maxScanDepth
  maxStringLength : strict.maxStringLength ≤ lax.maxStringLength
  gotoEnabled : strict.gotoEnabled = true → lax.gotoEnabled = true
  gasLimit : strict.gasLimit = lax.gasLimit
  errorLabel : strict.errorLabel = lax.errorLabel

theorem Stricter.settings {strict lax : RunConfig} (h : strict.Stricter lax) :
    strict.settings.Stricter lax.settings where
  gasLimit := congrArg UInt64.toNat h.gasLimit
  maxStringLength := h.maxStringLength
  gotoEnabled := h.gotoEnabled

/-- The errors of a configuration at what another allows. -/
inductive Refuses (strict lax : RunConfig) : RunError → Prop where
  | scan {pos : Position} : strict.maxScanDepth < lax.maxScanDepth →
      Refuses strict lax (.scan (.depthExceeded pos strict.maxScanDepth.toNat))
  | eval {e : EvalError} : strict.settings.Refuses lax.settings e → Refuses strict lax (.eval e)

end RunConfig

/-!
### Stage by stage

The tokens of a scan that was not refused are the same, and so is the program. It may still be
refused something when it runs.
-/

variable {c c' : RunConfig}

theorem compile_of_stricter (h : c'.Stricter c) (g : Grid) (p : Position) (d : Direction) :
    compile c' g p d = compile c g p d ∨ ∃ e, compile c' g p d = .error e ∧ c'.Refuses c e := by
  have hdepth : c'.maxScanDepth.toNat ≤ c.maxScanDepth.toNat := h.maxScanDepth
  unfold compile
  rcases scan_of_lower_limit g hdepth p d with heq | ⟨hlt, pos, heq⟩
  · rw [heq]
    exact .inl rfl
  · rw [heq]
    exact .inr ⟨_, rfl, .scan hlt⟩

/-- A run leaves the world that its effects make of the one it found. -/
theorem compileAndRun_grows (c : RunConfig) (w : World) (p : Position) (d : Direction) :
    ∃ effects, (compileAndRun c w p d).2 = w.after effects := by
  unfold compileAndRun
  split
  · exact ⟨[], rfl⟩
  · next program _ => exact Machine.law_grows.run c.settings program { world := w }

/-- What stricter limits make of a run, before an error is reported. -/
theorem compileAndRun_of_stricter (h : c'.Stricter c) (w : World) (p : Position) (d : Direction) :
    compileAndRun c' w p d = compileAndRun c w p d ∨
      ∃ e w' more, compileAndRun c' w p d = (.error e, w') ∧ c'.Refuses c e ∧
        (compileAndRun c w p d).2 = w'.after more := by
  rcases compile_of_stricter h w.grid p d with heq | ⟨e, heq, he⟩
  · unfold compileAndRun
    rw [heq]
    cases compile c w.grid p d with
    | error e => exact .inl rfl
    | ok program =>
        rcases (program.curbs_run h.settings).curbed { world := w } with
          hrun | ⟨e, m, hrun, he, more, hmore⟩
        · simp only [hrun]
          exact .inl trivial
        · simp only [hrun]
          exact .inr ⟨.eval e, m.world, more, rfl, .eval he, hmore⟩
  · obtain ⟨more, hmore⟩ := compileAndRun_grows c w p d
    refine .inr ⟨e, w, more, ?_, he, hmore⟩
    rw [compileAndRun, heq]

/-- The report of an error comes after everything else that a run did. -/
theorem run_world (c : RunConfig) (w : World) (p : Position) (d : Direction) :
    ∃ report, (run c w p d).2 = (compileAndRun c w p d).2.after report := by
  unfold run
  split
  · next w' heq => exact ⟨[], by rw [heq]; rfl⟩
  · next e w' heq => exact ⟨[.emitted (c.errorLabel ++ " " ++ e.text)], by rw [heq]; rfl⟩

/-- Under lower limits a run has the same result and leaves the same world, or it ends with the
error of a limit that was lowered. Up to the report of that error it has done a first part of what
the other run does, so its texts, commands and writes are the first ones of the other run. -/
theorem run_of_stricter (h : c'.Stricter c) (w : World) (p : Position) (d : Direction) :
    run c' w p d = run c w p d ∨
      ∃ e done more,
        run c' w p d = (.error e, (w.after done).emit (c'.errorLabel ++ " " ++ e.text)) ∧
        c'.Refuses c e ∧
        (run c w p d).2 = w.after (done ++ more) ∧
        (w.after done).texts <+: (run c w p d).2.texts ∧
        (w.after done).commands <+: (run c w p d).2.commands ∧
        (w.after done).writes <+: (run c w p d).2.writes := by
  rcases compileAndRun_of_stricter h w p d with heq | ⟨e, w', more, heq, he, hmore⟩
  · left
    rw [run, run, heq, h.errorLabel]
  · right
    obtain ⟨done, rfl⟩ : ∃ done, w' = w.after done := by
      simpa only [heq] using compileAndRun_grows c' w p d
    obtain ⟨report, hreport⟩ := run_world c w p d
    have hworld : (run c w p d).2 = w.after (done ++ (more ++ report)) := by
      rw [hreport, hmore, World.after_append, World.after_append]
    have htrace : (w.after done).trace <+: (run c w p d).2.trace := by
      rw [hworld, World.after_append, World.trace_after (w.after done)]
      exact List.prefix_append _ _
    refine ⟨e, done, more ++ report, ?_, he, hworld, htrace.filterMap _, htrace.filterMap _,
      htrace.filterMap _⟩
    rw [run, heq]

/-- The cells of a program that prints and jumps back to its start. -/
def printAndJump : World :=
  let kinds : List TokenKind := [.print, .bool, .one, .goto, .int, .zero]
  { grid := (Grid.empty.placeLine ⟨0, 0, 0⟩ .east (kinds.map TokenKind.symbol)).1 }

/-- With jumps it prints until the gas is used up. Without them it has printed once, as the other
run has by then, when the jump is refused. -/
theorem run_of_stricter_printAndJump :
    (run { gasLimit := 7, gotoEnabled := true } printAndJump ⟨0, 0, 0⟩ .east).2.texts =
        ["true", "true", "[LineBlock] gas exhausted after 7 steps"] ∧
      ∃ done more,
        run { gasLimit := 7 } printAndJump ⟨0, 0, 0⟩ .east =
          (.error (.eval (.gotoDisabled ⟨.goto, ⟨3, 0, 0⟩⟩)), (printAndJump.after done).emit
            "[LineBlock] error at GOTO at (3, 0, 0): GOTO is disabled") ∧
        (run { gasLimit := 7, gotoEnabled := true } printAndJump ⟨0, 0, 0⟩ .east).2 =
          printAndJump.after (done ++ more) := by
  have hlax : (run { gasLimit := 7, gotoEnabled := true } printAndJump ⟨0, 0, 0⟩ .east).1 =
      .error (.eval (.gasExhausted 7)) := by
    rfl
  have hstrict : (run { gasLimit := 7 } printAndJump ⟨0, 0, 0⟩ .east).1 =
      .error (.eval (.gotoDisabled ⟨.goto, ⟨3, 0, 0⟩⟩)) := by
    rfl
  have h : RunConfig.Stricter { gasLimit := 7 } { gasLimit := 7, gotoEnabled := true } :=
    ⟨by decide, by decide, by decide, rfl, rfl⟩
  refine ⟨by decide +kernel, ?_⟩
  rcases run_of_stricter h printAndJump ⟨0, 0, 0⟩ .east with
    heq | ⟨e, done, more, heq, _, hworld, _⟩
  · rw [heq, hlax] at hstrict
    cases hstrict
  · rw [heq] at hstrict
    cases hstrict
    exact ⟨done, more, heq, hworld⟩

end CellScript
