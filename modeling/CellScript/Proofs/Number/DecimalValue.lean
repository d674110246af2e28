/-
Module: CellScript.Proofs.Number.DecimalValue
Purpose: The decimal that is selected for a pattern reads back as that pattern. Reading looks at
  the value of a decimal only, and so does the test that selects it, so zeros at the end of the
  digits do not matter.
Main exports: Decimal.value, Single.readsBack_congr, Single.readsBack_shortest,
  Single.patternOfDecimal_of_readsBack
-/
import CellScript.Number.Decimal
import CellScript.Proofs.Number.Nearest
import CellScript.Proofs.Number.Order
import Mathlib.Algebra.Order.Field.Power
import Mathlib.Data.Rat.Cast.Order
import Mathlib.Tactic.FieldSimp
import Mathlib.Tactic.Linarith
import Mathlib.Tactic.NormNum

namespace CellScript

namespace Decimal

/-- The number that a decimal stands for. -/
def value (d : Decimal) : ℚ :=
  d.digits * (10 : ℚ) ^ d.exponent

/-- The ratio of naturals by which a decimal is measured in units. -/
theorem ratio_eq_value (d : Decimal) :
    ((d.digits * 10 ^ d.exponent.toNat * Single.unit : Nat) : ℚ) /
      ((10 ^ (-d.exponent).toNat : Nat) : ℚ) = d.value * Single.unit := by
  have hsplit : d.exponent = (d.exponent.toNat : Int) - ((-d.exponent).toNat : Int) := by omega
  have hpow : (10 : ℚ) ^ d.exponent = 10 ^ d.exponent.toNat / 10 ^ (-d.exponent).toNat := by
    conv_lhs => rw [hsplit]
    rw [zpow_sub₀ (by norm_num), zpow_natCast, zpow_natCast]
  rw [value, hpow]
  push_cast
  ring

theorem value_add_zeros (n k : Nat) (e : Int) :
    value ⟨n * 10 ^ k, e⟩ = value ⟨n, e + k⟩ := by
  simp only [value]
  rw [zpow_add₀ (by norm_num), zpow_natCast]
  push_cast
  ring

/-- Without the zeros at the end the value is the same. -/
theorem value_stripZeros (fuel : Nat) (d : Decimal) : (stripZeros fuel d).value = d.value := by
  induction fuel generalizing d with
  | zero => rfl
  | succ fuel ih =>
      rw [stripZeros]
      split
      · rename_i hzero
        rw [ih]
        have hdigits : d.digits / 10 * 10 ^ 1 = d.digits := by omega
        have hvalue := value_add_zeros (d.digits / 10) 1 d.exponent
        rw [hdigits] at hvalue
        exact hvalue.symm
      · rfl

theorem value_lt (d : Decimal) :
    d.value < (10 : ℚ) ^ (d.exponent + (Nat.toDigits 10 d.digits).length) := by
  have hdigits : d.digits < 10 ^ (Nat.toDigits 10 d.digits).length :=
    (Nat.length_toDigits_le_iff (by decide) Nat.length_toDigits_pos).1 le_rfl
  have hcast : (d.digits : ℚ) < 10 ^ (Nat.toDigits 10 d.digits).length := by exact_mod_cast hdigits
  rw [value, zpow_add₀ (by norm_num), zpow_natCast, mul_comm]
  exact mul_lt_mul_of_pos_left hcast (zpow_pos (by norm_num) _)

theorem le_value {d : Decimal} (hd : d.digits ≠ 0) :
    (10 : ℚ) ^ (d.exponent + (Nat.toDigits 10 d.digits).length - 1) ≤ d.value := by
  obtain ⟨k, hk⟩ := Nat.exists_eq_succ_of_ne_zero
    (Nat.ne_of_gt (Nat.length_toDigits_pos (b := 10) (n := d.digits)))
  have hdigits : 10 ^ k ≤ d.digits := by
    rcases Nat.eq_zero_or_pos k with rfl | hpos
    · exact Nat.pos_of_ne_zero hd
    · apply Nat.le_of_not_lt
      intro hlt
      have hlength := (Nat.length_toDigits_le_iff (by decide) hpos).2 hlt
      omega
  have hcast : (10 : ℚ) ^ k ≤ d.digits := by exact_mod_cast hdigits
  have hexponent : d.exponent + (Nat.toDigits 10 d.digits).length - 1 = k + d.exponent := by omega
  rw [value, hexponent, zpow_add₀ (by norm_num), zpow_natCast]
  exact mul_le_mul_of_nonneg_right hcast (zpow_nonneg (by norm_num) _)

end Decimal

namespace Single

/-!
### The interval of a pattern

The values that round to a pattern make an interval of rationals. Its ends, like a decimal, are
measured in units.
-/

/-- Whether a number of units lies between the midpoints around a pattern. -/
def Encloses (pattern : Nat) (x : ℚ) : Prop :=
  ((units (pattern - 1) + units pattern : Nat) : ℚ) ≤ 2 * x ∧
    2 * x ≤ ((units pattern + units (pattern + 1) : Nat) : ℚ) ∧
    (pattern % 2 = 1 →
      ((units (pattern - 1) + units pattern : Nat) : ℚ) ≠ 2 * x ∧
        2 * x ≠ ((units pattern + units (pattern + 1) : Nat) : ℚ))

variable {pattern : Nat} {d : Decimal}

theorem roundsTo_iff_encloses {num den : Nat} (hden : 0 < den) :
    RoundsTo pattern num den ↔ Encloses pattern ((num : ℚ) / den) := by
  have hpos : (0 : ℚ) < den := by exact_mod_cast hden
  have hle (low : Nat) : (low : ℚ) ≤ 2 * ((num : ℚ) / den) ↔ low * den ≤ 2 * num := by
    rw [← mul_div_assoc, le_div_iff₀ hpos]
    exact_mod_cast Iff.rfl
  have hge (high : Nat) : 2 * ((num : ℚ) / den) ≤ (high : ℚ) ↔ 2 * num ≤ high * den := by
    rw [← mul_div_assoc, div_le_iff₀ hpos]
    exact_mod_cast Iff.rfl
  have heq (n : Nat) : (n : ℚ) = 2 * ((num : ℚ) / den) ↔ n * den = 2 * num := by
    rw [le_antisymm_iff, hle, hge, ← Nat.le_antisymm_iff]
  simp only [RoundsTo, Encloses, ne_eq, hle, hge, heq,
    @eq_comm _ (2 * ((num : ℚ) / den)), @eq_comm _ (2 * num)]

theorem readsBack_iff_roundsTo :
    readsBack pattern d = true ↔
      RoundsTo pattern (d.digits * 10 ^ d.exponent.toNat * unit) (10 ^ (-d.exponent).toNat) := by
  have htwice : d.digits * 10 ^ d.exponent.toNat * (2 * unit) =
      2 * (d.digits * 10 ^ d.exponent.toNat * unit) := by
    ring
  show Decimal.isBetween d (units (pattern - 1) + units pattern)
    (units pattern + units (pattern + 1)) (pattern % 2 == 0) = true ↔ _
  simp only [Decimal.isBetween, Nat.pow_eq, htwice, RoundsTo]
  rcases Nat.mod_two_eq_zero_or_one pattern with heven | hodd
  · simp [heven]
  · simp [hodd]
    omega

theorem readsBack_iff_encloses :
    readsBack pattern d = true ↔ Encloses pattern (d.value * unit) := by
  rw [readsBack_iff_roundsTo, roundsTo_iff_encloses (Nat.pow_pos (by decide)),
    Decimal.ratio_eq_value]

/-- Whether a decimal reads back depends on its value alone. -/
theorem readsBack_congr {d' : Decimal} (h : d.value = d'.value) :
    readsBack pattern d = readsBack pattern d' := by
  rw [Bool.eq_iff_iff, readsBack_iff_encloses, readsBack_iff_encloses, h]

/-!
### The selected decimal
-/

/-- A decimal is taken from a grid only after the test. -/
theorem readsBack_of_onGrid? {grid : Int} (h : onGrid? pattern grid = some d) :
    readsBack pattern d = true := by
  unfold onGrid? at h
  simp only at h
  split at h
  · rename_i hbelow habove
    obtain rfl := Option.some.inj h
    split
    · exact hbelow
    · exact habove
  · rename_i hbelow _
    obtain rfl := Option.some.inj h
    exact hbelow
  · rename_i _ habove
    obtain rfl := Option.some.inj h
    exact habove
  · cases h

theorem readsBack_of_shortestFrom {fuel : Nat} {grid : Int}
    (h : shortestFrom pattern fuel grid = some d) : readsBack pattern d = true := by
  induction fuel generalizing grid with
  | zero => cases h
  | succ fuel ih =>
      rw [shortestFrom] at h
      split at h
      · rename_i found hgrid
        obtain rfl := Option.some.inj h
        exact readsBack_of_onGrid? hgrid
      · exact ih h

/-- The exact value of a pattern is inside its interval. -/
theorem encloses_units (hpos : 0 < pattern) : Encloses pattern (units pattern) := by
  have hbelow : (units (pattern - 1) : ℚ) < units pattern := by
    exact_mod_cast units_strictMono (Nat.sub_lt hpos Nat.one_pos)
  have habove : (units pattern : ℚ) < units (pattern + 1) := by
    exact_mod_cast units_strictMono (Nat.lt_succ_self pattern)
  unfold Encloses
  push_cast
  refine ⟨by linarith, by linarith, fun _ => ⟨?_, ?_⟩⟩
  · exact ne_of_lt (by linarith)
  · exact ne_of_lt (by linarith)

theorem cast_unit : ((unit : Nat) : ℚ) = 2 ^ 149 :=
  Nat.cast_pow 2 149

theorem value_exactDecimal (pattern : Nat) :
    (exactDecimal pattern).value * unit = units pattern := by
  have hfive : ((Nat.pow 5 149 : Nat) : ℚ) = 5 ^ 149 := Nat.cast_pow 5 149
  have hten : (10 : ℚ) ^ (-149 : Int) = (5 ^ 149 * 2 ^ 149)⁻¹ := by
    rw [← mul_pow, zpow_neg]
    norm_num
  simp only [Decimal.value, exactDecimal]
  rw [Nat.cast_mul, hfive, hten, cast_unit]
  have hfivePos : (0 : ℚ) < 5 ^ 149 := pow_pos (by norm_num) 149
  have htwoPos : (0 : ℚ) < 2 ^ 149 := pow_pos (by norm_num) 149
  -- written out, the powers have a hundred digits
  generalize (5 : ℚ) ^ 149 = five at hfivePos ⊢
  generalize (2 : ℚ) ^ 149 = two at htwoPos ⊢
  field_simp

/-- The shortest decimal reads back, whether the search finds it or takes all digits. -/
theorem readsBack_shortest (hpos : 0 < pattern) : readsBack pattern (shortest pattern) = true := by
  unfold shortest
  split
  · rename_i found hfound
    rw [readsBack_congr (Decimal.value_stripZeros 10 found)]
    exact readsBack_of_shortestFrom hfound
  · rw [readsBack_iff_encloses, value_exactDecimal]
    exact encloses_units hpos

/-!
### Reading

Decimals of which the leading digit is far out of range are not rounded at all. None of these
reads back as a finite pattern above zero.
-/

theorem units_infinityPattern : units infinityPattern = 2 ^ 23 * 2 ^ 254 :=
  units_of_eq_add (by decide) (.inr le_rfl) (by omega)

theorem value_bounds_of_readsBack (hpos : 0 < pattern) (hfinite : pattern < infinityPattern)
    (h : readsBack pattern d = true) :
    (1 : ℚ) ≤ d.value * 2 ^ 150 ∧ d.value ≤ 2 ^ 128 := by
  obtain ⟨hlow, hhigh, -⟩ := readsBack_iff_encloses.1 h
  have hbottom : 1 ≤ units (pattern - 1) + units pattern := by
    have hne := mt units_eq_zero_iff.1 (Nat.ne_of_gt hpos)
    omega
  have htop : units pattern + units (pattern + 1) ≤ 2 * (2 ^ 23 * 2 ^ 254) := by
    have hthis := units_strictMono.monotone (Nat.le_of_lt hfinite)
    have hnext := units_strictMono.monotone (Nat.succ_le_of_lt hfinite)
    rw [units_infinityPattern] at hthis hnext
    rw [Nat.two_mul]
    exact Nat.add_le_add hthis hnext
  have hbottomCast : (1 : ℚ) ≤ ((units (pattern - 1) + units pattern : Nat) : ℚ) := by
    exact_mod_cast hbottom
  have htopCast : ((units pattern + units (pattern + 1) : Nat) : ℚ) ≤
      2 * (2 ^ 23 * 2 ^ 254) := by
    exact_mod_cast htop
  rw [cast_unit] at hlow hhigh
  constructor
  · linarith
  · linarith

theorem lead_bounds_of_readsBack (hpos : 0 < pattern) (hfinite : pattern < infinityPattern)
    (h : readsBack pattern d = true) :
    d.digits ≠ 0 ∧ -45 ≤ d.exponent + (Nat.toDigits 10 d.digits).length ∧
      d.exponent + (Nat.toDigits 10 d.digits).length ≤ 39 := by
  obtain ⟨hlow, hhigh⟩ := value_bounds_of_readsBack hpos hfinite h
  have hdigits : d.digits ≠ 0 := by
    intro hzero
    rw [Decimal.value, hzero] at hlow
    norm_num at hlow
  refine ⟨hdigits, ?_, ?_⟩
  · by_contra hlead
    have hpow : (10 : ℚ) ^ (d.exponent + (Nat.toDigits 10 d.digits).length) ≤ 10 ^ (-46 : Int) :=
      zpow_le_zpow_right₀ (by norm_num) (by omega)
    have hsmall : (10 : ℚ) ^ (-46 : Int) * 2 ^ 150 < 1 := by norm_num
    have hvalue := Decimal.value_lt d
    linarith
  · by_contra hlead
    have hpow : (10 : ℚ) ^ (39 : Int) ≤
        10 ^ (d.exponent + (Nat.toDigits 10 d.digits).length - 1) :=
      zpow_le_zpow_right₀ (by norm_num) (by omega)
    have hlarge : (2 : ℚ) ^ 128 < 10 ^ (39 : Int) := by norm_num
    have hvalue := Decimal.le_value hdigits
    linarith

/-- A decimal that passes the test for a pattern is read as that pattern. -/
theorem patternOfDecimal_of_readsBack (hpos : 0 < pattern) (hfinite : pattern < infinityPattern)
    (h : readsBack pattern d = true) : patternOfDecimal d = pattern := by
  obtain ⟨hdigits, hlow, hhigh⟩ := lead_bounds_of_readsBack hpos hfinite h
  have hnear :
      ¬(d.digits = 0 || d.exponent + (Nat.toDigits 10 d.digits).length < -45) = true := by
    simp [hdigits, Int.not_lt.2 hlow]
  unfold patternOfDecimal
  simp only
  rw [if_neg hnear, if_neg (Int.not_lt.2 hhigh)]
  exact roundPattern_of_roundsTo hpos hfinite (Nat.pow_pos (by decide))
    (readsBack_iff_roundsTo.1 h)

end Single

end CellScript
