/-
Module: CellScript.Proofs.Value.Comparison
Purpose: How the comparison operators order integers. Equality looks at the integers themselves, the
  others at their roundings to single precision, so integers that have the same rounding are neither
  less nor greater nor equal.
Main exports: BinaryOp.Holds, BinaryOp.OrdersInts, BinaryOp.ordersInts_iff, BinaryOp.compare_ints
-/
import CellScript.Proofs.Number.Order
import CellScript.Value.Operation

namespace CellScript

namespace BinaryOp

/-- An operator comes to true for two integers. -/
def Holds (op : BinaryOp) (limit : Nat) (a b : Int32) : Prop :=
  op.apply limit (.int a) (.int b) = .ok (.bool true)

/-- The comparisons put two integers in order: they are less, equal or greater and just one of
these, the other two comparisons join one of these to equality, and less is less of integers. -/
structure OrdersInts (limit : Nat) (a b : Int32) : Prop where
  trichotomy :
    lt.Holds limit a b ∧ ¬ eq.Holds limit a b ∧ ¬ gt.Holds limit a b ∨
      ¬ lt.Holds limit a b ∧ eq.Holds limit a b ∧ ¬ gt.Holds limit a b ∨
      ¬ lt.Holds limit a b ∧ ¬ eq.Holds limit a b ∧ gt.Holds limit a b
  le_iff : le.Holds limit a b ↔ lt.Holds limit a b ∨ eq.Holds limit a b
  ge_iff : ge.Holds limit a b ↔ gt.Holds limit a b ∨ eq.Holds limit a b
  lt_iff : lt.Holds limit a b ↔ a.toInt < b.toInt

/-! ### Each comparison of integers -/

theorem natAbs_toInt_le (a : Int32) : a.toInt.natAbs ≤ 2 ^ 31 := by
  have hlow := a.le_toInt
  have hhigh := a.toInt_lt
  omega

section Ints

variable (limit : Nat) (a b : Int32)

theorem holds_iff_of_apply {op : BinaryOp} {limit : Nat} {a b : Int32} {truth : Bool}
    (h : op.apply limit (.int a) (.int b) = .ok (.bool truth)) :
    op.Holds limit a b ↔ truth = true := by
  rw [Holds, h, Except.ok.injEq, Value.bool.injEq]

theorem eq_holds : eq.Holds limit a b ↔ a = b :=
  (holds_iff_of_apply rfl).trans beq_iff_eq

theorem lt_holds :
    lt.Holds limit a b ↔ Single.nearest a.toInt < Single.nearest b.toInt :=
  (holds_iff_of_apply rfl).trans (Single.ofInt_lt_ofInt (natAbs_toInt_le a) (natAbs_toInt_le b))

theorem gt_holds :
    gt.Holds limit a b ↔ Single.nearest b.toInt < Single.nearest a.toInt :=
  (holds_iff_of_apply rfl).trans (Single.ofInt_lt_ofInt (natAbs_toInt_le b) (natAbs_toInt_le a))

theorem le_holds :
    le.Holds limit a b ↔ Single.nearest a.toInt ≤ Single.nearest b.toInt :=
  (holds_iff_of_apply rfl).trans (Single.ofInt_le_ofInt (natAbs_toInt_le a) (natAbs_toInt_le b))

theorem ge_holds :
    ge.Holds limit a b ↔ Single.nearest b.toInt ≤ Single.nearest a.toInt :=
  (holds_iff_of_apply rfl).trans (Single.ofInt_le_ofInt (natAbs_toInt_le b) (natAbs_toInt_le a))

/-- The comparisons put integers in order exactly when rounding keeps them apart. -/
theorem ordersInts_iff :
    OrdersInts limit a b ↔ a = b ∨ Single.nearest a.toInt ≠ Single.nearest b.toInt := by
  have heq : eq.Holds limit a b ↔ a.toInt = b.toInt :=
    (eq_holds limit a b).trans Int32.toInt_inj.symm
  have hlt := lt_holds limit a b
  have hgt := gt_holds limit a b
  have hless := Single.lt_of_nearest_lt (a := a.toInt) (b := b.toInt)
  have hgreater := Single.lt_of_nearest_lt (a := b.toInt) (b := a.toInt)
  have hsame : a.toInt = b.toInt → Single.nearest a.toInt = Single.nearest b.toInt :=
    congrArg Single.nearest
  rw [← Int32.toInt_inj]
  constructor
  · intro h
    have htrichotomy := h.trichotomy
    rw [hlt, heq, hgt] at htrichotomy
    omega
  · intro h
    constructor
    · rw [hlt, heq, hgt]
      omega
    · rw [le_holds, hlt, heq]
      omega
    · rw [ge_holds, hgt, heq]
      omega
    · rw [hlt]
      omega

theorem ordersInts_of_apart {limit : Nat} {a b : Int32}
    (h : a.toInt.natAbs < 2 ^ 24 ∨ b.toInt.natAbs < 2 ^ 24 ∨
      128 < (a.toInt - b.toInt).natAbs) : OrdersInts limit a b := by
  rw [ordersInts_iff]
  by_cases hne : a = b
  · exact .inl hne
  · rw [← Int32.toInt_inj] at hne
    right
    rcases h with ha | hb | hfar
    · exact Single.nearest_ne_of_small ha hne
    · exact (Single.nearest_ne_of_small hb (Ne.symm hne)).symm
    · exact Single.nearest_ne_of_far (natAbs_toInt_le a) (natAbs_toInt_le b) hfar

end Ints

/-- All comparisons of two integers come to a truth value. Equality is that of the integers. Less
and greater are those of their roundings to 24 binary digits, and imply those of the integers; the
other two are what is not greater and what is not less. The comparisons put the integers in order
exactly if these are equal or have different roundings. That is so if one of them has at most 24
digits, or if they differ by more than 128. -/
theorem compare_ints (limit : Nat) (a b : Int32) :
    (∀ op ∈ [lt, eq, gt, le, ge], ∃ truth : Bool,
        op.apply limit (.int a) (.int b) = .ok (.bool truth)) ∧
      (eq.Holds limit a b ↔ a = b) ∧
      (lt.Holds limit a b ↔ Single.nearest a.toInt < Single.nearest b.toInt) ∧
      (gt.Holds limit a b ↔ Single.nearest b.toInt < Single.nearest a.toInt) ∧
      (le.Holds limit a b ↔ ¬ gt.Holds limit a b) ∧
      (ge.Holds limit a b ↔ ¬ lt.Holds limit a b) ∧
      (lt.Holds limit a b → a.toInt < b.toInt) ∧
      (gt.Holds limit a b → b.toInt < a.toInt) ∧
      (OrdersInts limit a b ↔ a = b ∨ Single.nearest a.toInt ≠ Single.nearest b.toInt) ∧
      (a.toInt.natAbs < 2 ^ 24 ∨ b.toInt.natAbs < 2 ^ 24 ∨ 128 < (a.toInt - b.toInt).natAbs →
        OrdersInts limit a b) := by
  have htruth : ∀ op ∈ [lt, eq, gt, le, ge], ∃ truth : Bool,
      op.apply limit (.int a) (.int b) = .ok (.bool truth) := by
    simp [apply, comparison, onNumbers, Value.single?]
  refine ⟨htruth, eq_holds limit a b, lt_holds limit a b, gt_holds limit a b, ?_, ?_, ?_, ?_,
    ordersInts_iff limit a b, ordersInts_of_apart⟩
  · rw [le_holds, gt_holds, Int.not_lt]
  · rw [ge_holds, lt_holds, Int.not_lt]
  · rw [lt_holds]
    exact Single.lt_of_nearest_lt
  · rw [gt_holds]
    exact Single.lt_of_nearest_lt

/-- The least and the greatest integer are far from each other. -/
theorem compare_ints_minValue_maxValue :
    128 < (Int32.minValue.toInt - Int32.maxValue.toInt).natAbs ∧
      OrdersInts 1048576 Int32.minValue Int32.maxValue := by
  have hfar : 128 < (Int32.minValue.toInt - Int32.maxValue.toInt).natAbs := by decide
  obtain ⟨-, -, -, -, -, -, -, -, -, hapart⟩ :=
    compare_ints 1048576 Int32.minValue Int32.maxValue
  exact ⟨hfar, hapart (.inr (.inr hfar))⟩

/-- Two neighbours that are neither less nor equal nor greater. -/
theorem not_ordersInts_neighbours :
    ¬ lt.Holds 1048576 16777216 16777217 ∧ ¬ eq.Holds 1048576 16777216 16777217 ∧
      ¬ gt.Holds 1048576 16777216 16777217 ∧ le.Holds 1048576 16777216 16777217 ∧
      ge.Holds 1048576 16777216 16777217 ∧ ¬ OrdersInts 1048576 16777216 16777217 := by
  rw [ordersInts_iff, lt_holds, eq_holds, gt_holds, le_holds, ge_holds]
  decide +kernel

end BinaryOp

end CellScript
