/-
Module: CellScript.Proofs.Scan.PlacedLine
Purpose: Placing symbols on a line of an empty grid and scanning it. A line that does not reach
  round to its start is read back as it is; one that goes once round all coordinates is a cycle.
Main exports: Grid.placeLine_snd, Position.onward_full, Heading.endsAt_fullLine, scan_placeLine
-/
import CellScript.Proofs.Scan.Line

namespace CellScript

/-- Placing a line gives the first position after it. -/
theorem Grid.placeLine_snd (g : Grid) (p : Position) (d : Direction) (symbols : List Symbol) :
    (g.placeLine p d symbols).2 = p.onward d symbols.length := by
  induction symbols generalizing g p with
  | nil => rw [placeLine, List.length_nil, Position.onward_zero]
  | cons s symbols ih => rw [placeLine, ih, Position.onward_step, List.length_cons]

/-- A line comes back to its start after all coordinates. -/
theorem Position.onward_full (p : Position) (d : Direction) : p.onward d (2 ^ 32) = p :=
  p.onward_zero d

section Line

variable {p : Position} {d : Direction} {kinds : List TokenKind}

/-- A line through all coordinates leads back to its start, and to no other cell twice. -/
theorem Heading.endsAt_fullLine (hlength : kinds.length = 2 ^ 32) :
    EndsAt (.line p d kinds) ⟨p, d⟩ kinds.length (some (.redirectCycle p d)) := by
  have hafter {i : Nat} (hi : i ≤ kinds.length) :
      after (.line p d kinds) ⟨p, d⟩ i = some ⟨p.onward d i, d⟩ :=
    after_line (Nat.le_of_eq hlength) hi
  have hback : after (.line p d kinds) ⟨p, d⟩ kinds.length = some ⟨p, d⟩ := by
    rw [hafter (Nat.le_refl _), hlength, Position.onward_full]
  refine .cycle ⟨hback, ⟨0, by omega, rfl⟩, fun i j hij hj heq => ?_⟩
  rw [hafter (by omega), hafter (by omega), Option.some.injEq, mk.injEq, Position.onward_inj] at heq
  all_goals omega

theorem Walk.trail_fullLine (hlength : kinds.length = 2 ^ 32) :
    trail (.line p d kinds) p d =
      ((Token.line p d kinds).map fun token => ⟨token, d⟩, some (.redirectCycle p d)) := by
  rw [trail_of_endsAt (Heading.endsAt_fullLine hlength),
    Heading.stepsBefore_line (Nat.le_of_eq hlength) (Nat.le_refl _), List.take_of_length_le]
  simp [Token.line]

theorem scan_fullLine (limit : Nat) (hlength : kinds.length = 2 ^ 32) :
    scan (.line p d kinds) limit p d = .error (.redirectCycle p d) :=
  scan_of_trail_line limit (Walk.trail_fullLine hlength)

end Line

/-- Place the symbols of some kinds of tokens on a line of an empty grid. If there are fewer than
`2 ^ 32` of them, then a scan from the start of the line reads these kinds in turn, each at its
cell, whatever the limit on side-scans; beside no token is anything to scan, so that no side-scan is
made. Placing gives the cell after the line. If there are `2 ^ 32` of them, then the scan comes back
to the start and reports a cycle there. -/
theorem scan_placeLine (p : Position) (d : Direction) (limit : Nat) (kinds : List TokenKind) :
    (kinds.length < 2 ^ 32 →
      scan (Grid.empty.placeLine p d (kinds.map TokenKind.symbol)).1 limit p d =
          .ok (kinds.mapIdx fun i kind => ⟨kind, p.onward d i⟩) ∧
        ∀ token ∈ kinds.mapIdx (fun i kind => (⟨kind, p.onward d i⟩ : Token)), ∀ deeper,
          Scan.sides (Grid.empty.placeLine p d (kinds.map TokenKind.symbol)).1 limit deeper token
            d.sides = .ok []) ∧
      (Grid.empty.placeLine p d (kinds.map TokenKind.symbol)).2 = p.onward d kinds.length ∧
      (kinds.length = 2 ^ 32 →
        scan (Grid.empty.placeLine p d (kinds.map TokenKind.symbol)).1 limit p d =
          .error (.redirectCycle p d)) := by
  refine ⟨fun hlength => ⟨scan_line limit hlength, fun token htoken deeper => ?_⟩, ?_,
    scan_fullLine limit⟩
  · exact Scan.sides_of_bare fun side hside => Grid.meaning_beside_line htoken hside
  · rw [Grid.placeLine_snd, List.length_map]

/-- A line of four tokens across the edge of the coordinates is read back without any side-scan,
even if none is allowed. A line of `PI` through all coordinates is a cycle. -/
theorem scan_placeLine_acrossTheEdge :
    scan (Grid.empty.placeLine ⟨0, .maxValue, 5⟩ .up
          ([TokenKind.print, .pi, .plus, .expBase].map TokenKind.symbol)).1 0
        ⟨0, .maxValue, 5⟩ .up =
      .ok [⟨.print, ⟨0, .maxValue, 5⟩⟩, ⟨.pi, ⟨0, .minValue, 5⟩⟩,
        ⟨.plus, ⟨0, .minValue + 1, 5⟩⟩, ⟨.expBase, ⟨0, .minValue + 2, 5⟩⟩] ∧
    scan (Grid.empty.placeLine ⟨0, .maxValue, 5⟩ .up
          ((List.replicate (2 ^ 32) TokenKind.pi).map TokenKind.symbol)).1 0
        ⟨0, .maxValue, 5⟩ .up =
      .error (.redirectCycle ⟨0, .maxValue, 5⟩ .up) := by
  constructor
  · exact ((scan_placeLine _ _ _ _).1 (by decide)).1
  · exact (scan_placeLine _ _ _ _).2.2 List.length_replicate

end CellScript
