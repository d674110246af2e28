/-
Module: CellScript.Proofs.Run.Confinement
Purpose: A program never looks at the grid that it runs on, and what it does to the world is what
  its own statements stand for.
Main exports: Program.Confined, Program.run_confined
-/
import CellScript.Proofs.Run.Conduct

namespace CellScript

namespace Program

/-- What a program can have done between two worlds.

* The host stays, and the record grows at its end by what was done.
* Commands that ran are those of statements, and the host let each of them run by the record as it
  was then. If the host goes by hooks, those hooks succeed. Symbols that were written are templates
  of statements.
* The grid is the old one with the writes in order: a position reads as its last write, without
  facing, and has its old cell if nothing was written there. -/
structure Confined (program : Program) (before after : World) (done : List Effect) : Prop where
  host : after.host = before.host
  trace : after.trace = before.trace ++ done
  texts : after.texts = before.texts ++ done.filterMap Effect.text?
  commands : after.commands = before.commands ++ done.filterMap Effect.command?
  executed : ∀ earlier pos later, done = earlier ++ .executed pos :: later →
    before.host.answer (earlier.reverse ++ before.effects) pos = .ok () ∧
      ∃ token : Token, program.HasStmt (.command token) ∧ token.pos = pos
  hooks : ∀ hooks, before.host = .ofHooks hooks →
    ∀ pos, .executed pos ∈ done → hooks[pos]? = some .succeeds
  wrote : ∀ pos symbol, .wrote pos symbol ∈ done →
    ∃ token x y z templatePos, program.HasStmt (.place token x y z templatePos symbol)
  grid : after.grid = before.grid.writeAll (done.filterMap Effect.write?)
  lastWrite : ∀ first pos symbol last,
    done.filterMap Effect.write? = first ++ (pos, symbol) :: last → (∀ w ∈ last, w.1 ≠ pos) →
      after.grid.symbolAt pos = symbol ∧ after.grid.facingAt pos = none
  untouched : ∀ pos, (∀ w ∈ done.filterMap Effect.write?, w.1 ≠ pos) →
    after.grid.cell? pos = before.grid.cell? pos

/-- Effects of the statements of a program are confined. -/
theorem confined_after (program : Program) (w : World) {done : List Effect}
    (h : ∀ earlier effect later, done = earlier ++ effect :: later →
      ∃ n, program.HasStmt n ∧ n.Does w.host (earlier.reverse ++ w.effects) effect) :
    program.Confined w (w.after done) done where
  host := w.host_after done
  trace := w.trace_after done
  texts := by rw [World.texts, World.trace_after, List.filterMap_append, World.texts]
  commands := by rw [World.commands, World.trace_after, List.filterMap_append, World.commands]
  executed earlier pos later heq := by
    obtain ⟨n, hn, hdoes⟩ := h earlier _ later heq
    cases hdoes with
    | command hanswer => exact ⟨hanswer, _, hn, rfl⟩
  hooks hooks hhost pos hpos := by
    obtain ⟨earlier, later, heq⟩ := List.append_of_mem hpos
    obtain ⟨n, hn, hdoes⟩ := h earlier _ later heq
    cases hdoes with
    | command hanswer => exact Host.answer_ofHooks_eq_ok_iff.1 (hhost ▸ hanswer)
  wrote pos symbol hpos := by
    obtain ⟨earlier, later, heq⟩ := List.append_of_mem hpos
    obtain ⟨n, hn, hdoes⟩ := h earlier _ later heq
    cases hdoes with
    | place => exact ⟨_, _, _, _, _, hn⟩
  grid := w.grid_after done
  lastWrite first pos symbol last hwrites hlast := by
    rw [World.grid_after, hwrites]
    exact ⟨Grid.symbolAt_writeAll _ hlast symbol, Grid.facingAt_writeAll _ hlast symbol⟩
  untouched pos hpos := by
    rw [World.grid_after]
    exact Grid.cell?_writeAll _ hpos

/-- On any two grids a program has the same result, variables and gas, and does the same things in
the same order. Whatever the result, what it does is confined. So a program that writes over its own
cells, or over its templates, does not change its course. -/
theorem run_confined (s : Settings) (program : Program) (m : Machine) (g : Grid) :
    (program.run s (m.onGrid g)).1 = (program.run s m).1 ∧
      (program.run s (m.onGrid g)).2.gas = (program.run s m).2.gas ∧
      (program.run s (m.onGrid g)).2.scopes = (program.run s m).2.scopes ∧
      ∃ done,
        program.Confined m.world (program.run s m).2.world done ∧
        program.Confined (m.world.onGrid g) (program.run s (m.onGrid g)).2.world done := by
  let c : Pairing := ⟨program.HasStmt, s.gasLimit, m.world, g⟩
  have hprogram : ∀ stmt ∈ program.body, c.Admits stmt := fun stmt hstmt n hn => ⟨stmt, hstmt, hn⟩
  obtain ⟨hresult, -, -, hscopes, hgas, done, hdone, hworld, hworld'⟩ :=
    program.conducts_run (s := s) (c := c) rfl hprogram (.start _ _ m g)
  refine ⟨hresult, hgas, hscopes, done, ?_, ?_⟩
  · rw [hworld]
    exact program.confined_after m.world hdone
  · rw [hworld']
    exact program.confined_after (m.world.onGrid g) hdone

end Program

end CellScript
