/-
Module: CellScript.Proofs.Scan.Line
Purpose: Tokens that stand alone on a straight line are read back, one after the other. Nothing lies
  beside the line, so no side-scan finds anything, and the walk ends at the first cell after it.
Main exports: Grid.line, Token.line, Grid.cell?_placeLine, TokenKind.meaning_symbol, scan_line
-/
import CellScript.Proofs.Scan.CycleGuard
import CellScript.Proofs.Space.Arithmetic
import CellScript.Scan

namespace CellScript

open Std

/-! ### The cells of a line -/

namespace Grid

variable (g : Grid) (p : Position) (d : Direction)

theorem cell?_place (q : Position) (s : Symbol) :
    (g.place p s).cell? q = if p = q then some { symbol := s } else g.cell? q := by
  simp only [place, insert, cell?, TreeMap.getElem?_insert, LawfulEqCmp.compare_eq_iff_eq]

/-- Cells that are not on the line stay as they are. -/
theorem cell?_placeLine_of_ne {q : Position} {symbols : List Symbol}
    (h : ∀ i < symbols.length, p.onward d i ≠ q) :
    (g.placeLine p d symbols).1.cell? q = g.cell? q := by
  induction symbols generalizing g p with
  | nil => rfl
  | cons s symbols ih =>
      have hfirst : p ≠ q := by
        have hstart := h 0 (Nat.succ_pos _)
        rwa [Position.onward_zero] at hstart
      have hrest : ∀ i < symbols.length, (p.step d).onward d i ≠ q := by
        intro i hi
        rw [Position.onward_step]
        exact h (i + 1) (Nat.succ_lt_succ hi)
      rw [placeLine, ih _ _ hrest, cell?_place, if_neg hfirst]

/-- A line that does not reach round to its start has each symbol in its place. -/
theorem cell?_placeLine {symbols : List Symbol} (hlength : symbols.length ≤ 2 ^ 32) {i : Nat}
    (hi : i < symbols.length) :
    (g.placeLine p d symbols).1.cell? (p.onward d i) = some { symbol := symbols[i] } := by
  induction symbols generalizing g p i with
  | nil => cases hi
  | cons s symbols ih =>
      rw [List.length_cons] at hlength hi
      cases i with
      | zero =>
          rw [placeLine, cell?_placeLine_of_ne, Position.onward_zero, cell?_place, if_pos rfl]
          · rfl
          · intro j hj
            rw [Position.onward_step, Ne, Position.onward_inj] <;> omega
      | succ i =>
          rw [placeLine, ← Position.onward_step, ih _ _ (by omega) (by omega)]
          rfl

/-- The grid with nothing but tokens of given kinds on a line. -/
def line (p : Position) (d : Direction) (kinds : List TokenKind) : Grid :=
  (empty.placeLine p d (kinds.map TokenKind.symbol)).1

end Grid

/-- The tokens on a line. -/
def Token.line (p : Position) (d : Direction) (kinds : List TokenKind) : List Token :=
  kinds.mapIdx fun i kind => ⟨kind, p.onward d i⟩

theorem Token.line_cons (p : Position) (d : Direction) (kind : TokenKind)
    (kinds : List TokenKind) :
    line p d (kind :: kinds) = ⟨kind, p⟩ :: line (p.step d) d kinds := by
  simp only [line, List.mapIdx_cons, Position.onward_zero, Position.onward_step]

theorem Token.map_kind_line (p : Position) (d : Direction) (kinds : List TokenKind) :
    (line p d kinds).map Token.kind = kinds := by
  induction kinds generalizing p with
  | nil => rfl
  | cons kind kinds ih => rw [line_cons, List.map_cons, ih]

theorem TokenKind.meaning_symbol (kind : TokenKind) : kind.symbol.meaning = .token kind := by
  cases kind <;> rfl

section Line

variable {p : Position} {d : Direction} {kinds : List TokenKind}

theorem Grid.meaning_line (hlength : kinds.length ≤ 2 ^ 32) {i : Nat} (hi : i < kinds.length) :
    ((line p d kinds).symbolAt (p.onward d i)).meaning = .token kinds[i] := by
  rw [symbolAt, line, cell?_placeLine _ _ _ (by simpa using hlength) (by simpa using hi)]
  simp [TokenKind.meaning_symbol]

theorem Grid.meaning_line_of_ne {q : Position} (h : ∀ i < kinds.length, p.onward d i ≠ q) :
    ((line p d kinds).symbolAt q).meaning = .unknown := by
  have hnone : (line p d kinds).cell? q = none := by
    rw [line, cell?_placeLine_of_ne _ _ _ (by simpa using h)]
    exact TreeMap.getElem?_emptyc
  rw [symbolAt, hnone]
  rfl

/-- Nothing lies beside a line. -/
theorem Grid.meaning_beside_line {token : Token} (htoken : token ∈ Token.line p d kinds)
    {side : Direction} (hside : side ∈ d.sides) :
    ((line p d kinds).symbolAt (token.pos.step side)).meaning = .unknown := by
  obtain ⟨i, _, rfl⟩ := List.mem_mapIdx.1 htoken
  exact meaning_line_of_ne fun j _ heq => Position.step_ne_onward p d hside i j heq.symm

/-! ### Walking a line -/

namespace Heading

theorem look_line (hlength : kinds.length ≤ 2 ^ 32) {i : Nat} (hi : i < kinds.length) :
    look (.line p d kinds) ⟨p.onward d i, d⟩ =
      .token ⟨⟨kinds[i], p.onward d i⟩, d⟩ ⟨p.onward d (i + 1), d⟩ := by
  rw [look, Grid.meaning_line hlength hi, Position.onward_succ]
  rfl

theorem after_line (hlength : kinds.length ≤ 2 ^ 32) {i : Nat} (hi : i ≤ kinds.length) :
    after (.line p d kinds) ⟨p, d⟩ i = some ⟨p.onward d i, d⟩ := by
  induction i with
  | zero => rw [after, Position.onward_zero]
  | succ i ih => rw [after_succ (ih (Nat.le_of_succ_le hi)), look_line hlength hi]; rfl

theorem stepsBefore_line (hlength : kinds.length ≤ 2 ^ 32) {i : Nat} (hi : i ≤ kinds.length) :
    stepsBefore (.line p d kinds) ⟨p, d⟩ i =
      ((Token.line p d kinds).map fun token => ⟨token, d⟩).take i := by
  induction i with
  | zero => rfl
  | succ i ih =>
      have hlt : i < kinds.length := hi
      rw [stepsBefore_succ (after_line hlength (Nat.le_of_lt hlt)), look_line hlength hlt,
        ih (Nat.le_of_lt hlt), List.take_add_one]
      simp [Sight.step?, Token.line, hlt]

/-- The course of a line ends at the first cell after it. -/
theorem endsAt_line (hlength : kinds.length < 2 ^ 32) :
    EndsAt (.line p d kinds) ⟨p, d⟩ kinds.length none := by
  refine .unknown (after_line (Nat.le_of_lt hlength) (Nat.le_refl _)) ?_
  rw [look, Grid.meaning_line_of_ne]
  intro i hi
  rw [Ne, Position.onward_inj] <;> omega

end Heading

theorem Walk.trail_line (hlength : kinds.length < 2 ^ 32) :
    trail (.line p d kinds) p d = ((Token.line p d kinds).map fun token => ⟨token, d⟩, none) := by
  rw [trail_of_endsAt (Heading.endsAt_line hlength),
    Heading.stepsBefore_line (Nat.le_of_lt hlength) (Nat.le_refl _), List.take_of_length_le]
  simp [Token.line]

/-! ### Scanning a line -/

namespace Scan

variable {g : Grid} {limit : Nat}
  {deeper : Option (Position → Direction → Except ScanError (List Token))}

theorem sides_of_bare {token : Token} {ds : List Direction}
    (h : ∀ side ∈ ds, (g.symbolAt (token.pos.step side)).meaning = .unknown) :
    sides g limit deeper token ds = .ok [] := by
  induction ds with
  | nil => rfl
  | cons d ds ih =>
      obtain ⟨hside, hds⟩ := List.forall_mem_cons.1 h
      have hnone : side g limit deeper token d = .ok [] := by
        simp only [side, hside]
      rw [sides, hnone, ih hds]
      rfl

/-- Where nothing lies beside the steps of a walk, a scan has the tokens of the steps, and the fault
of the walk. -/
theorem splice_of_bare {fault : Option ScanError} {steps : List Step}
    (h : ∀ step ∈ steps, ∀ side ∈ step.heading.sides,
      (g.symbolAt (step.token.pos.step side)).meaning = .unknown) :
    splice g limit deeper fault steps = fault.elim (.ok (steps.map Step.token)) .error := by
  induction steps with
  | nil => cases fault <;> rfl
  | cons step steps ih =>
      obtain ⟨hstep, hsteps⟩ := List.forall_mem_cons.1 h
      rw [splice, ih hsteps, sides_of_bare hstep, ite_self]
      cases fault <;> rfl

end Scan

/-- A walk that goes along a line gives the tokens of the line to a scan, or its fault. -/
theorem scan_of_trail_line {fault : Option ScanError} (limit : Nat)
    (htrail : Walk.trail (.line p d kinds) p d =
      ((Token.line p d kinds).map fun token => ⟨token, d⟩, fault)) :
    scan (.line p d kinds) limit p d = fault.elim (.ok (Token.line p d kinds)) .error := by
  have hbare : ∀ step ∈ (Token.line p d kinds).map (fun token => (⟨token, d⟩ : Step)),
      ∀ side ∈ step.heading.sides,
        ((Grid.line p d kinds).symbolAt (step.token.pos.step side)).meaning = .unknown := by
    intro step hstep side hside
    obtain ⟨token, htoken, rfl⟩ := List.mem_map.1 hstep
    exact Grid.meaning_beside_line htoken hside
  have htokens : ((Token.line p d kinds).map (fun token => (⟨token, d⟩ : Step))).map Step.token =
      Token.line p d kinds := by
    rw [List.map_map]
    exact List.map_id _
  cases limit with
  | zero => simp only [scan, Scan.within, htrail, Scan.splice_of_bare hbare, htokens]
  | succ limit => simp only [scan, Scan.within, htrail, Scan.splice_of_bare hbare, htokens]

/-- Tokens that stand alone on a line are read in turn, whatever the limit on side-scans. -/
theorem scan_line (limit : Nat) (hlength : kinds.length < 2 ^ 32) :
    scan (.line p d kinds) limit p d = .ok (Token.line p d kinds) :=
  scan_of_trail_line limit (Walk.trail_line hlength)

end Line

end CellScript
