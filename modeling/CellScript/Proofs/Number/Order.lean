/-
Module: CellScript.Proofs.Number.Order
Purpose: Single precision numbers are in the order of what they are worth, and integers that are
  taken for such numbers are in the order of their roundings to 24 binary digits.
Main exports: Single.worth, Single.lt_iff_worth, Single.le_iff_worth, Single.nearest,
  Single.worth_ofInt, Single.nearest_le_nearest, Single.nearest_ne_of_small,
  Single.nearest_ne_of_far
-/
import CellScript.Proofs.Number.Rounding

namespace CellScript

namespace Single

/-!
### Worth

The order looks at patterns with their signs. More units have a larger pattern.
-/

/-- What a number is worth in units, if it is one. -/
def worth (x : Single) : Int :=
  signed x.negative (units x.pattern)

theorem units_eq_zero_iff {pattern : Nat} : units pattern = 0 ↔ pattern = 0 :=
  units_strictMono.injective.eq_iff' rfl

theorem signed_units_lt (s t : Bool) (p q : Nat) :
    signed s (units p) < signed t (units q) ↔ signed s p < signed t q := by
  have hlt : units p < units q ↔ p < q := units_strictMono.lt_iff_lt
  have hgt : units q < units p ↔ q < p := units_strictMono.lt_iff_lt
  have hp : units p = 0 ↔ p = 0 := units_eq_zero_iff
  have hq : units q = 0 ↔ q = 0 := units_eq_zero_iff
  cases s <;> cases t <;> simp only [signed, if_true, Bool.false_eq_true, if_false] <;> omega

theorem key_eq (x : Single) : x.key = signed x.negative x.pattern := rfl

variable {x y : Single}

theorem lt_iff_worth (hx : x.isNaN = false) (hy : y.isNaN = false) :
    x.lt y = true ↔ x.worth < y.worth := by
  rw [worth, worth, signed_units_lt]
  simp only [lt, hx, hy, key_eq, Bool.not_false, Bool.true_and]
  exact decide_eq_true_iff

theorem le_iff_worth (hx : x.isNaN = false) (hy : y.isNaN = false) :
    x.le y = true ↔ x.worth ≤ y.worth := by
  rw [← Int.not_lt, worth, worth, signed_units_lt]
  simp only [le, hx, hy, key_eq, Bool.not_false, Bool.true_and, Int.not_lt]
  exact decide_eq_true_iff

/-!
### Integers
-/

/-- The nearest number of at most 24 binary digits, and zeros behind them. -/
def nearest (n : Int) : Int :=
  signed (n < 0) (significant n.natAbs)

theorem toNat_ofPattern (negative : Bool) {pattern : Nat} (h : pattern < 2 ^ 31) :
    (ofPattern negative pattern).bits.toNat = (if negative then 2 ^ 31 else 0) + pattern := by
  cases negative with
  | false =>
      show (UInt32.ofNat pattern).toNat = 0 + pattern
      rw [UInt32.toNat_ofNat', Nat.zero_add]
      omega
  | true =>
      show (UInt32.ofNat (2 ^ 31 + pattern)).toNat = 2 ^ 31 + pattern
      rw [UInt32.toNat_ofNat']
      omega

theorem negative_ofPattern (negative : Bool) {pattern : Nat} (h : pattern < 2 ^ 31) :
    (ofPattern negative pattern).negative = negative := by
  show decide (2 ^ 31 ≤ (ofPattern negative pattern).bits.toNat) = negative
  rw [toNat_ofPattern negative h]
  cases negative with
  | false => exact decide_eq_false (by simpa using h)
  | true => exact decide_eq_true (Nat.le_add_right _ _)

theorem pattern_ofPattern (negative : Bool) {pattern : Nat} (h : pattern < 2 ^ 31) :
    (ofPattern negative pattern).pattern = pattern := by
  show (ofPattern negative pattern).bits.toNat % 2 ^ 31 = pattern
  rw [toNat_ofPattern negative h]
  cases negative with
  | false => rw [if_neg (by decide), Nat.zero_add, Nat.mod_eq_of_lt h]
  | true => rw [if_pos rfl, Nat.add_mod_left, Nat.mod_eq_of_lt h]

theorem roundPattern_le (num den : Nat) : roundPattern num den ≤ infinityPattern :=
  Nat.min_le_right _ _

theorem roundPattern_lt (num den : Nat) : roundPattern num den < 2 ^ 31 :=
  Nat.lt_of_le_of_lt (roundPattern_le num den) (by decide)

theorem isNaN_ofInt (n : Int) : (ofInt n).isNaN = false := by
  rw [isNaN, ofInt, ofRatio, pattern_ofPattern _ (roundPattern_lt _ _)]
  exact decide_eq_false (Nat.not_lt.2 (roundPattern_le _ _))

theorem signed_mul (negative : Bool) (a b : Nat) :
    signed negative (a * b) = signed negative a * b := by
  cases negative with
  | false => exact Int.natCast_mul a b
  | true => rw [signed, if_pos rfl, Int.natCast_mul, ← Int.neg_mul, signed, if_pos rfl]

theorem worth_ofInt {n : Int} (h : n.natAbs ≤ 2 ^ 31) : (ofInt n).worth = nearest n * unit := by
  have hlog : (n.natAbs * 2 ^ 149).log2 ≤ 275 := by
    have hlt : (n.natAbs * 2 ^ 149).log2 < 181 := by
      apply log2_lt_of_lt (by decide)
      calc
        n.natAbs * 2 ^ 149 ≤ 2 ^ 31 * 2 ^ 149 := Nat.mul_le_mul_right _ h
        _ < 2 ^ 181 := by decide
    omega
  have hunits : units (roundPattern (n.natAbs * unit) 1) = significant n.natAbs * unit :=
    (units_roundPattern_one hlog).trans (significant_mul_two_pow n.natAbs 149)
  rw [worth, ofInt, ofRatio, negative_ofPattern _ (roundPattern_lt _ _),
    pattern_ofPattern _ (roundPattern_lt _ _), hunits, signed_mul, nearest]

/-- The order of integers in single precision is the order of their roundings. -/
theorem ofInt_lt_ofInt {a b : Int} (ha : a.natAbs ≤ 2 ^ 31) (hb : b.natAbs ≤ 2 ^ 31) :
    (ofInt a).lt (ofInt b) = true ↔ nearest a < nearest b := by
  rw [lt_iff_worth (isNaN_ofInt a) (isNaN_ofInt b), worth_ofInt ha, worth_ofInt hb]
  exact Int.mul_lt_mul_right (by decide)

theorem ofInt_le_ofInt {a b : Int} (ha : a.natAbs ≤ 2 ^ 31) (hb : b.natAbs ≤ 2 ^ 31) :
    (ofInt a).le (ofInt b) = true ↔ nearest a ≤ nearest b := by
  rw [le_iff_worth (isNaN_ofInt a) (isNaN_ofInt b), worth_ofInt ha, worth_ofInt hb]
  exact Int.mul_le_mul_right (by decide)

/-!
### Roundings of integers
-/

section Nearest

variable {a b n : Int}

theorem nearest_of_nonneg (h : 0 ≤ n) : nearest n = significant n.natAbs := by
  rw [nearest, decide_eq_false (Int.not_lt.2 h)]
  rfl

theorem nearest_of_neg (h : n < 0) : nearest n = -significant n.natAbs := by
  rw [nearest, decide_eq_true h]
  rfl

theorem natAbs_nearest (n : Int) : (nearest n).natAbs = significant n.natAbs := by
  rcases Int.lt_or_le n 0 with h | h
  · rw [nearest_of_neg h, Int.natAbs_neg, Int.natAbs_natCast]
  · rw [nearest_of_nonneg h, Int.natAbs_natCast]

/-- Rounding keeps the order, on both sides of zero. -/
theorem nearest_le_nearest (h : a ≤ b) : nearest a ≤ nearest b := by
  rcases Int.lt_or_le a 0 with ha | ha
  · rw [nearest_of_neg ha]
    rcases Int.lt_or_le b 0 with hb | hb
    · have hmono : significant b.natAbs ≤ significant a.natAbs :=
        significant_le_significant (by omega)
      rw [nearest_of_neg hb]
      omega
    · rw [nearest_of_nonneg hb]
      omega
  · have hmono : significant a.natAbs ≤ significant b.natAbs :=
      significant_le_significant (by omega)
    rw [nearest_of_nonneg ha, nearest_of_nonneg (Int.le_trans ha h)]
    exact Int.ofNat_le.2 hmono

theorem lt_of_nearest_lt (h : nearest a < nearest b) : a < b := by
  apply Int.not_le.1
  intro hle
  exact absurd (nearest_le_nearest hle) (Int.not_le.2 h)

theorem nearest_of_small (h : n.natAbs ≤ 2 ^ 24) : nearest n = n := by
  rcases Int.lt_or_le n 0 with hn | hn
  · rw [nearest_of_neg hn, significant_of_le h]
    omega
  · rw [nearest_of_nonneg hn, significant_of_le h]
    omega

/-- An integer of at most 24 digits is not mixed up with any other. -/
theorem nearest_ne_of_small (h : a.natAbs < 2 ^ 24) (hne : a ≠ b) : nearest a ≠ nearest b := by
  rw [nearest_of_small (Nat.le_of_lt h)]
  rcases Nat.le_total b.natAbs (2 ^ 24) with hb | hb
  · rwa [nearest_of_small hb]
  · have hlarge : 2 ^ 24 ≤ significant b.natAbs := by
      have hmono := significant_le_significant hb
      rwa [significant_of_le (Nat.le_refl _)] at hmono
    rw [← natAbs_nearest] at hlarge
    rintro rfl
    exact absurd hlarge (Nat.not_le.2 h)

theorem nearest_near (h : n.natAbs ≤ 2 ^ 31) : (nearest n - n).natAbs ≤ 64 := by
  have hnear : 2 * significant n.natAbs ≤ 2 * n.natAbs + 128 ∧
      2 * n.natAbs ≤ 2 * significant n.natAbs + 128 := by
    rcases Nat.lt_or_eq_of_le h with hlt | heq
    · have hlog : n.natAbs.log2 < 31 := log2_lt_of_lt (by decide) hlt
      have hpow : 2 ^ (n.natAbs.log2 - 23) ≤ 2 ^ 7 := Nat.pow_le_pow_right (by decide) (by omega)
      have hhalf := significant_near n.natAbs
      omega
    · rw [heq, significant_of_dvd]
      · omega
      · rw [Nat.log2_two_pow]
        exact Nat.pow_dvd_pow 2 (by decide)
  rcases Int.lt_or_le n 0 with hn | hn
  · rw [nearest_of_neg hn]
    omega
  · rw [nearest_of_nonneg hn]
    omega

/-- Integers that are far enough from each other are not mixed up. -/
theorem nearest_ne_of_far (ha : a.natAbs ≤ 2 ^ 31) (hb : b.natAbs ≤ 2 ^ 31)
    (h : 128 < (a - b).natAbs) : nearest a ≠ nearest b := by
  have hneara := nearest_near ha
  have hnearb := nearest_near hb
  omega

end Nearest

end Single

end CellScript
