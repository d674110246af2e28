/-
Module: CellScript.Proofs.Space.Arithmetic
Purpose: Sums and differences of positions, and the cells of a straight line. Coordinates wrap, so a
  line comes back to its start, but not before it has gone through all coordinates.
Main exports: Position.add_def, Position.sub_def, Position.onward, Position.onward_inj,
  Position.step_ne_onward
-/
import CellScript.Space.Direction
import Mathlib.Algebra.Group.Nat.Defs

namespace CellScript

namespace Position

variable (p q v w : Position)

theorem add_def : p + q = ⟨p.x + q.x, p.y + q.y, p.z + q.z⟩ :=
  rfl

theorem sub_def : p - q = ⟨p.x - q.x, p.y - q.y, p.z - q.z⟩ :=
  rfl

theorem add_left_inj : p + v = q + v ↔ p = q := by
  cases p
  cases q
  simp only [add_def, mk.injEq]
  grind

theorem add_sub_add_right : p + v - (q + v) = p - q := by
  simp only [add_def, sub_def, mk.injEq]
  grind

theorem add_right_comm : p + v + w = p + w + v := by
  simp only [add_def, mk.injEq]
  grind

/-! ### Straight lines -/

/-- The cell `n` steps on in a direction. -/
def onward (p : Position) (d : Direction) (n : Nat) : Position :=
  p.advance d (.ofNat n)

variable (d : Direction)

theorem onward_zero : p.onward d 0 = p := by
  obtain ⟨x, y, z⟩ := p
  cases d <;> simp [onward, advance, scale, add_def]

theorem onward_succ (n : Nat) : p.onward d (n + 1) = (p.onward d n).step d := by
  simp only [onward, Int32.ofNat_add, step, advance]
  cases d <;> simp only [scale, Direction.vector, add_def, mk.injEq] <;> grind

theorem onward_step (n : Nat) : (p.step d).onward d n = p.onward d (n + 1) := by
  simp only [onward, Int32.ofNat_add, step, advance]
  cases d <;> simp only [scale, Direction.vector, add_def, mk.injEq] <;> grind

theorem advance_inj (m n : Int32) : p.advance d m = p.advance d n ↔ m = n := by
  cases d <;> simp only [advance, scale, Direction.vector, add_def, mk.injEq] <;> grind

/-- No two of the first `2 ^ 32` cells of a line are the same. -/
theorem onward_inj {i j : Nat} (hi : i < 2 ^ 32) (hj : j < 2 ^ 32) :
    p.onward d i = p.onward d j ↔ i = j := by
  rw [onward, onward, advance_inj]
  constructor
  · intro h
    have hbits := congrArg (fun n : Int32 => n.toBitVec.toNat) h
    simp only [Int32.toBitVec_ofNat', BitVec.toNat_ofNat] at hbits
    omega
  · rintro rfl
    rfl

/-- A step aside leaves the line. -/
theorem step_ne_onward {side : Direction} (h : side ∈ d.sides) (i j : Nat) :
    (p.onward d i).step side ≠ p.onward d j := by
  simp only [onward, step, advance]
  cases d <;> cases side <;>
    first
    | exact absurd h (by decide)
    | simp only [scale, Direction.vector, add_def, Ne, mk.injEq]
      grind

end Position

end CellScript
