/-
Module: CellScript.Proofs.Number.Nearest
Purpose: Rounding a ratio gives the pattern whose midpoints to its two neighbours enclose the
  ratio. A midpoint itself belongs to the even pattern.
Main exports: Single.RoundsTo, Single.roundPattern_of_roundsTo
-/
import CellScript.Proofs.Number.Rounding
import Mathlib.Tactic.Ring

namespace CellScript

namespace Single

variable {num den : Nat}

/-- `num / den` units lie between the midpoints of a pattern and its neighbours, and on one of them
only if the pattern is even. -/
def RoundsTo (pattern num den : Nat) : Prop :=
  (units (pattern - 1) + units pattern) * den ≤ 2 * num ∧
    2 * num ≤ (units pattern + units (pattern + 1)) * den ∧
    (pattern % 2 = 1 →
      (units (pattern - 1) + units pattern) * den ≠ 2 * num ∧
        2 * num ≠ (units pattern + units (pattern + 1)) * den)

/-- The number that is at most one half off is the rounded quotient, if it is even where it is one
half off. -/
theorem roundDiv_eq_of_near {q : Nat} (hden : 0 < den) (hlow : 2 * (q * den) ≤ 2 * num + den)
    (hhigh : 2 * num ≤ 2 * (q * den) + den)
    (htie : q % 2 = 1 → 2 * (q * den) ≠ 2 * num + den ∧ 2 * num ≠ 2 * (q * den) + den) :
    roundDiv num den = q := by
  have hnum := Nat.div_add_mod' num den
  have hrest := Nat.mod_lt num hden
  -- one step of the quotient is worth `den`, more than the bounds leave
  have hquotient : num / den = q ∨ num / den + 1 = q := by
    have habove : num / den ≤ q := by
      by_contra hgt
      have hmul := Nat.mul_le_mul_right den (Nat.lt_of_not_le hgt)
      rw [Nat.succ_mul] at hmul
      omega
    have hbelow : q ≤ num / den + 1 := by
      by_contra hlt
      have hmul := Nat.mul_le_mul_right den (Nat.lt_of_not_le hlt)
      rw [Nat.succ_mul, Nat.add_mul] at hmul
      omega
    omega
  rw [roundDiv_eq]
  rcases hquotient with heq | heq
  · rw [heq] at hnum ⊢
    apply if_pos
    omega
  · rw [← heq, Nat.add_mul] at hlow htie
    rw [← heq]
    apply if_neg
    omega

/-- How often the significand of a ratio is doubled. -/
theorem doublings_eq {d : Nat} (hden : 0 < den) (hlow : d = 0 ∨ 2 ^ 23 * (den * 2 ^ d) ≤ num)
    (hhigh : num < 2 ^ 24 * (den * 2 ^ d)) : (num / den).log2 - 23 = d := by
  have hpow (n : Nat) : 2 ^ n * (den * 2 ^ d) = 2 ^ (n + d) * den := by ring
  rw [hpow] at hlow hhigh
  have hlt : num / den < 2 ^ (24 + d) := (Nat.div_lt_iff_lt_mul hden).2 hhigh
  rcases hlow with rfl | hlow
  · have hlog := log2_lt_of_lt (by decide) hlt
    omega
  · have hle : 2 ^ (23 + d) ≤ num / den := (Nat.le_div_iff_mul_le hden).2 hlow
    have hne : num / den ≠ 0 := by
      have hpos := Nat.two_pow_pos (23 + d)
      omega
    have hupper := (Nat.log2_lt hne).2 hlt
    have hlower := (Nat.le_log2 hne).2 hle
    omega

/-- A ratio rounds to the significand nearest to it at its own number of doublings. -/
theorem roundPattern_eq {d q : Nat} (hdoublings : (num / den).log2 - 23 = d)
    (hround : roundDiv num (den * 2 ^ d) = q) (hfinite : d * 2 ^ 23 + q ≤ infinityPattern) :
    roundPattern num den = d * 2 ^ 23 + q := by
  show min (((num / den).log2 - 23) * 2 ^ 23 +
    roundDiv num (den * 2 ^ ((num / den).log2 - 23))) infinityPattern = _
  rw [hdoublings, hround]
  exact Nat.min_eq_left hfinite

/-- `roundPattern_eq` with the distance to the significand in place of the rounded quotient. -/
theorem roundPattern_of_near {d q : Nat} (hden : 0 < den)
    (hdoublings : (num / den).log2 - 23 = d) (hfinite : d * 2 ^ 23 + q ≤ infinityPattern)
    (hlow : 2 * (q * (den * 2 ^ d)) ≤ 2 * num + den * 2 ^ d)
    (hhigh : 2 * num ≤ 2 * (q * (den * 2 ^ d)) + den * 2 ^ d)
    (htie : q % 2 = 1 → 2 * (q * (den * 2 ^ d)) ≠ 2 * num + den * 2 ^ d ∧
      2 * num ≠ 2 * (q * (den * 2 ^ d)) + den * 2 ^ d) :
    roundPattern num den = d * 2 ^ 23 + q :=
  roundPattern_eq hdoublings
    (roundDiv_eq_of_near (Nat.mul_pos hden (Nat.two_pow_pos d)) hlow hhigh htie) hfinite

/-- `units_add` for the significands below 24 digits too, which are not doubled. -/
theorem units_of_eq_add {pattern d q : Nat} (hpattern : pattern = d * 2 ^ 23 + q)
    (hlow : d = 0 ∨ 2 ^ 23 ≤ q) (hhigh : q ≤ 2 ^ 24) : units pattern = q * 2 ^ d := by
  rw [hpattern]
  rcases hlow with rfl | hlow
  · rw [Nat.zero_mul, Nat.zero_add, Nat.pow_zero, Nat.mul_one]
    exact units_of_le hhigh
  · exact units_add d hlow hhigh

/-- Inside a run of equally spaced patterns both midpoints are half a step away. -/
theorem roundPattern_of_roundsTo_inside {pattern d r : Nat}
    (hpattern : pattern = d * 2 ^ 23 + (r + 1)) (hlow : d = 0 ∨ 2 ^ 23 ≤ r)
    (hhigh : r + 1 < 2 ^ 24) (hfinite : pattern < infinityPattern) (hden : 0 < den)
    (h : RoundsTo pattern num den) : roundPattern num den = pattern := by
  have hbelow : units (pattern - 1) = r * 2 ^ d :=
    units_of_eq_add (by omega) hlow (by omega)
  have hat : units pattern = (r + 1) * 2 ^ d :=
    units_of_eq_add hpattern (by omega) (by omega)
  have habove : units (pattern + 1) = (r + 2) * 2 ^ d :=
    units_of_eq_add (by omega) (by omega) (by omega)
  have hfirst : (r * 2 ^ d + (r + 1) * 2 ^ d) * den = 2 * (r * (den * 2 ^ d)) + den * 2 ^ d := by
    ring
  have hsecond : ((r + 1) * 2 ^ d + (r + 2) * 2 ^ d) * den =
      2 * (r * (den * 2 ^ d)) + 3 * (den * 2 ^ d) := by
    ring
  have hnext : (r + 1) * (den * 2 ^ d) = r * (den * 2 ^ d) + den * 2 ^ d := by
    ring
  have hstep : 0 < den * 2 ^ d := Nat.mul_pos hden (Nat.two_pow_pos d)
  rw [RoundsTo, hbelow, hat, habove, hfirst, hsecond] at h
  obtain ⟨hfrom, hto, hends⟩ := h
  rw [hpattern] at hfinite hends ⊢
  apply roundPattern_of_near hden
  · apply doublings_eq hden
    · refine hlow.imp_right fun hle => ?_
      have hmul := Nat.mul_le_mul_right (den * 2 ^ d) hle
      omega
    · have hmul := Nat.mul_le_mul_right (den * 2 ^ d) (show r + 2 ≤ 2 ^ 24 by omega)
      rw [Nat.add_mul] at hmul
      omega
  · exact Nat.le_of_lt hfinite
  · omega
  · omega
  · omega

/-- At a power of two the steps below are half as long as those above. A ratio below the power
rounds up to it as the significand that overflows. -/
theorem roundPattern_of_roundsTo_power {pattern k : Nat}
    (hpattern : pattern = k * 2 ^ 23 + 2 ^ 24) (hfinite : pattern < infinityPattern)
    (hden : 0 < den) (h : RoundsTo pattern num den) : roundPattern num den = pattern := by
  have hsame : pattern = (k + 1) * 2 ^ 23 + 2 ^ 23 := by
    rw [hpattern]
    ring
  have hbelow : units (pattern - 1) = (2 ^ 24 - 1) * 2 ^ k :=
    units_of_eq_add (by omega) (.inr (by decide)) (by decide)
  have hat : units pattern = 2 ^ 24 * 2 ^ k :=
    units_of_eq_add hpattern (.inr (by decide)) (by decide)
  have habove : units (pattern + 1) = (2 ^ 23 + 1) * 2 ^ (k + 1) :=
    units_of_eq_add (by omega) (.inr (by decide)) (by decide)
  have hfirst : ((2 ^ 24 - 1) * 2 ^ k + 2 ^ 24 * 2 ^ k) * den =
      (2 ^ 25 - 1) * (den * 2 ^ k) := by
    ring
  have hsecond : (2 ^ 24 * 2 ^ k + (2 ^ 23 + 1) * 2 ^ (k + 1)) * den =
      (2 ^ 25 + 2) * (den * 2 ^ k) := by
    ring
  have hstep : 0 < den * 2 ^ k := Nat.mul_pos hden (Nat.two_pow_pos k)
  have hdouble : den * 2 ^ (k + 1) = 2 * (den * 2 ^ k) := by ring
  rw [RoundsTo, hbelow, hat, habove, hfirst, hsecond] at h
  obtain ⟨hfrom, hto, -⟩ := h
  rcases Nat.lt_or_ge num (2 ^ 24 * (den * 2 ^ k)) with hlt | hge
  · rw [hpattern] at hfinite ⊢
    apply roundPattern_of_near hden
    · exact doublings_eq hden (.inr (by omega)) (by omega)
    · exact Nat.le_of_lt hfinite
    · omega
    · omega
    · omega
  · rw [hsame] at hfinite ⊢
    apply roundPattern_of_near hden
    · exact doublings_eq hden (.inr (by omega)) (by omega)
    · exact Nat.le_of_lt hfinite
    · omega
    · omega
    · omega

/-- A ratio between the midpoints around a finite pattern above zero rounds to that pattern. -/
theorem roundPattern_of_roundsTo {pattern : Nat} (hpos : 0 < pattern)
    (hfinite : pattern < infinityPattern) (hden : 0 < den) (h : RoundsTo pattern num den) :
    roundPattern num den = pattern := by
  by_cases hsmall : pattern < 2 ^ 24
  · exact roundPattern_of_roundsTo_inside (d := 0) (r := pattern - 1) (by omega) (.inl rfl)
      (by omega) hfinite hden h
  · by_cases hpower : pattern % 2 ^ 23 = 0
    · exact roundPattern_of_roundsTo_power (k := pattern / 2 ^ 23 - 2) (by omega) hfinite hden h
    · exact roundPattern_of_roundsTo_inside (d := pattern / 2 ^ 23 - 1)
        (r := pattern % 2 ^ 23 + 2 ^ 23 - 1) (by omega) (.inr (by omega)) (by omega) hfinite hden h

end Single

end CellScript
