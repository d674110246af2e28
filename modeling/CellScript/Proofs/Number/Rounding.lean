/-
Module: CellScript.Proofs.Number.Rounding
Purpose: Rounding to single precision keeps 24 binary digits. Numbers with more digits go to the
  nearest number that has no more, and of two that are equally near to the one with the even last
  digit.
Main exports: Single.roundDiv_le_roundDiv, Single.units_strictMono, Single.significant,
  Single.significant_le_significant, Single.units_roundPattern_one
-/
import CellScript.Number.Single
import Mathlib.Algebra.Group.Nat.Defs
import Mathlib.Order.Monotone.Basic

namespace CellScript

namespace Single

/-!
### Rounded quotients
-/

section RoundDiv

variable {a b den : Nat}

theorem roundDiv_eq (a den : Nat) :
    roundDiv a den =
      if 2 * (a % den) < den ∨ 2 * (a % den) = den ∧ a / den % 2 = 0 then a / den
      else a / den + 1 := by
  simp [roundDiv]

/-- A rounded quotient is the quotient or the next number, whichever is nearer. -/
theorem roundDiv_cases (a den : Nat) :
    roundDiv a den = a / den ∧ 2 * (a % den) ≤ den ∨
      roundDiv a den = a / den + 1 ∧ den ≤ 2 * (a % den) := by
  rw [roundDiv_eq]
  split <;> omega

theorem roundDiv_le_roundDiv (den : Nat) (h : a ≤ b) : roundDiv a den ≤ roundDiv b den := by
  have hquotient : a / den ≤ b / den := Nat.div_le_div_right h
  rcases Nat.lt_or_eq_of_le hquotient with hlt | heq
  · have ha := roundDiv_cases a den
    have hb := roundDiv_cases b den
    omega
  · -- of one quotient the larger rest is rounded up if the smaller one is
    have hrest : a % den ≤ b % den := by
      have ha := Nat.div_add_mod a den
      have hb := Nat.div_add_mod b den
      rw [heq] at ha
      omega
    rw [roundDiv_eq, roundDiv_eq, heq]
    split
    · split <;> omega
    · split <;> omega

theorem roundDiv_mul_self (q : Nat) (hden : 0 < den) : roundDiv (q * den) den = q := by
  rw [roundDiv_eq, Nat.mul_mod_left, Nat.mul_div_cancel q hden]
  exact if_pos (.inl hden)

theorem roundDiv_le {q : Nat} (h : a ≤ q * den) (hden : 0 < den) : roundDiv a den ≤ q := by
  have hmono := roundDiv_le_roundDiv den h
  rwa [roundDiv_mul_self q hden] at hmono

theorem le_roundDiv {q : Nat} (h : q * den ≤ a) (hden : 0 < den) : q ≤ roundDiv a den := by
  have hmono := roundDiv_le_roundDiv den h
  rwa [roundDiv_mul_self q hden] at hmono

/-- Rounding depends on the ratio alone. -/
theorem roundDiv_mul_mul (a den : Nat) {k : Nat} (hk : 0 < k) :
    roundDiv (a * k) (den * k) = roundDiv a den := by
  have hlt : 2 * (a % den * k) < den * k ↔ 2 * (a % den) < den := by
    rw [← Nat.mul_assoc]
    exact Nat.mul_lt_mul_right hk
  have heq : 2 * (a % den * k) = den * k ↔ 2 * (a % den) = den := by
    rw [← Nat.mul_assoc]
    exact Nat.mul_left_inj (Nat.ne_of_gt hk)
  simp only [roundDiv_eq, Nat.mul_div_mul_right a den hk, Nat.mul_mod_mul_right, hlt, heq]

/-- A rounded quotient is off by at most one half. -/
theorem roundDiv_mul_near (a : Nat) (hden : 0 < den) :
    2 * (roundDiv a den * den) ≤ 2 * a + den ∧ 2 * a ≤ 2 * (roundDiv a den * den) + den := by
  have ha := Nat.div_add_mod' a den
  have hlt := Nat.mod_lt a hden
  rcases roundDiv_cases a den with ⟨hround, hrest⟩ | ⟨hround, hrest⟩
  · rw [hround]
    omega
  · rw [hround, Nat.add_mul]
    omega

end RoundDiv

/-!
### Patterns and units

A pattern says how often a significand is doubled. A significand of 24 digits that overflows by
rounding is the first of the next doubling.
-/

theorem units_eq (pattern : Nat) :
    units pattern =
      if pattern / 2 ^ 23 = 0 then pattern
      else (2 ^ 23 + pattern % 2 ^ 23) * 2 ^ (pattern / 2 ^ 23 - 1) := rfl

/-- The pattern of a significand that is doubled some times. -/
theorem units_add {q : Nat} (d : Nat) (hlow : 2 ^ 23 ≤ q) (hhigh : q ≤ 2 ^ 24) :
    units (d * 2 ^ 23 + q) = q * 2 ^ d := by
  rcases Nat.lt_or_eq_of_le hhigh with hlt | rfl
  · have hfield : (d * 2 ^ 23 + q) / 2 ^ 23 = d + 1 := by omega
    have hrest : (d * 2 ^ 23 + q) % 2 ^ 23 = q - 2 ^ 23 := by omega
    rw [units_eq, hfield, hrest, if_neg (Nat.succ_ne_zero d), Nat.add_sub_cancel,
      Nat.add_sub_cancel' hlow]
  · have hfield : (d * 2 ^ 23 + 2 ^ 24) / 2 ^ 23 = d + 2 := by omega
    have hrest : (d * 2 ^ 23 + 2 ^ 24) % 2 ^ 23 = 0 := by omega
    rw [units_eq, hfield, hrest, if_neg (Nat.succ_ne_zero _)]
    show (2 ^ 23 + 0) * 2 ^ (d + 1) = _
    rw [Nat.pow_succ]
    omega

theorem units_of_le {pattern : Nat} (h : pattern ≤ 2 ^ 24) : units pattern = pattern := by
  by_cases hfield : pattern / 2 ^ 23 = 0
  · rw [units_eq, if_pos hfield]
  · have hnormal := units_add 0 (by omega) h
    rwa [Nat.zero_mul, Nat.zero_add, Nat.pow_zero, Nat.mul_one] at hnormal

theorem units_strictMono : StrictMono units := by
  apply strictMono_nat_of_lt_succ
  intro pattern
  by_cases hsmall : pattern < 2 ^ 24
  · rw [units_of_le (Nat.le_of_lt hsmall), units_of_le hsmall]
    exact Nat.lt_succ_self pattern
  · have hdecompose : ∃ d q, pattern = d * 2 ^ 23 + q ∧ 2 ^ 23 ≤ q ∧ q < 2 ^ 24 :=
      ⟨pattern / 2 ^ 23 - 1, pattern % 2 ^ 23 + 2 ^ 23, by omega, by omega, by omega⟩
    obtain ⟨d, q, rfl, hlow, hhigh⟩ := hdecompose
    rw [units_add d hlow (Nat.le_of_lt hhigh), Nat.add_assoc, units_add d (by omega) hhigh]
    exact Nat.mul_lt_mul_of_pos_right (Nat.lt_succ_self q) (Nat.two_pow_pos d)

/-- The digits that rounding keeps make a significand of at most 24 digits. -/
theorem roundDiv_le_two_pow (num : Nat) {den : Nat} (hden : 0 < den) :
    roundDiv num (den * 2 ^ ((num / den).log2 - 23)) ≤ 2 ^ 24 := by
  apply roundDiv_le _ (Nat.mul_pos hden (Nat.two_pow_pos _))
  have hlt : num < 2 ^ ((num / den).log2 + 1) * den :=
    (Nat.div_lt_iff_lt_mul hden).1 Nat.lt_log2_self
  calc
    num ≤ 2 ^ ((num / den).log2 + 1) * den := Nat.le_of_lt hlt
    _ ≤ 2 ^ (24 + ((num / den).log2 - 23)) * den :=
      Nat.mul_le_mul_right den (Nat.pow_le_pow_right (by decide) (by omega))
    _ = 2 ^ 24 * (den * 2 ^ ((num / den).log2 - 23)) := by
      rw [Nat.pow_add, Nat.mul_assoc, Nat.mul_comm den]

theorem two_pow_le_roundDiv {num den : Nat} (hden : 0 < den) (h : 23 ≤ (num / den).log2) :
    2 ^ 23 ≤ roundDiv num (den * 2 ^ ((num / den).log2 - 23)) := by
  apply le_roundDiv _ (Nat.mul_pos hden (Nat.two_pow_pos _))
  have hne : num / den ≠ 0 := by
    intro hzero
    rw [hzero] at h
    exact absurd h (by decide)
  calc
    2 ^ 23 * (den * 2 ^ ((num / den).log2 - 23)) = 2 ^ (num / den).log2 * den := by
      rw [Nat.mul_comm den, ← Nat.mul_assoc, ← Nat.pow_add, Nat.add_sub_cancel' h]
    _ ≤ num := (Nat.le_div_iff_mul_le hden).1 (Nat.log2_self_le hne)

/-- The units of a rounded ratio that is not too large to be finite. -/
theorem units_roundPattern (num : Nat) {den : Nat} (hden : 0 < den)
    (hfinite : (num / den).log2 ≤ 275) :
    units (roundPattern num den) =
      roundDiv num (den * 2 ^ ((num / den).log2 - 23)) * 2 ^ ((num / den).log2 - 23) := by
  have hhigh := roundDiv_le_two_pow num hden
  have hpattern : roundPattern num den = ((num / den).log2 - 23) * 2 ^ 23 +
      roundDiv num (den * 2 ^ ((num / den).log2 - 23)) := by
    apply Nat.min_eq_left
    show ((num / den).log2 - 23) * 2 ^ 23 +
      roundDiv num (den * 2 ^ ((num / den).log2 - 23)) ≤ 0x7F800000
    omega
  rw [hpattern]
  by_cases hdigits : 23 ≤ (num / den).log2
  · exact units_add _ (two_pow_le_roundDiv hden hdigits) hhigh
  · have hnone : (num / den).log2 - 23 = 0 := by omega
    rw [hnone] at hhigh ⊢
    rw [Nat.zero_mul, Nat.zero_add, Nat.pow_zero, Nat.mul_one, Nat.mul_one]
    rw [Nat.pow_zero, Nat.mul_one] at hhigh
    exact units_of_le hhigh

/-!
### Numbers of 24 digits
-/

/-- The number of at most 24 binary digits, and zeros behind them, that is nearest to a natural. -/
def significant (n : Nat) : Nat :=
  roundDiv n (2 ^ (n.log2 - 23)) * 2 ^ (n.log2 - 23)

section Significant

variable {n k : Nat}

/-- A number is not rounded past one that has no digits to lose. -/
theorem significant_le (hk : 2 ^ (n.log2 - 23) ∣ k) (h : n ≤ k) : significant n ≤ k := by
  obtain ⟨q, rfl⟩ := hk
  rw [Nat.mul_comm] at h ⊢
  exact Nat.mul_le_mul_right _ (roundDiv_le h (Nat.two_pow_pos _))

theorem le_significant (hk : 2 ^ (n.log2 - 23) ∣ k) (h : k ≤ n) : k ≤ significant n := by
  obtain ⟨q, rfl⟩ := hk
  rw [Nat.mul_comm] at h ⊢
  exact Nat.mul_le_mul_right _ (le_roundDiv h (Nat.two_pow_pos _))

theorem significant_of_dvd (h : 2 ^ (n.log2 - 23) ∣ n) : significant n = n :=
  Nat.le_antisymm (significant_le h (Nat.le_refl n)) (le_significant h (Nat.le_refl n))

theorem log2_lt_of_lt (hk : 0 < k) (h : n < 2 ^ k) : n.log2 < k := by
  by_cases hn : n = 0
  · rw [hn, Nat.log2_zero]
    exact hk
  · exact (Nat.log2_lt hn).2 h

theorem significant_of_le (h : n ≤ 2 ^ 24) : significant n = n := by
  apply significant_of_dvd
  rcases Nat.lt_or_eq_of_le h with hlt | rfl
  · have hlog : n.log2 < 24 := log2_lt_of_lt (by decide) hlt
    have hnone : n.log2 - 23 = 0 := by omega
    rw [hnone]
    exact Nat.one_dvd n
  · rw [Nat.log2_two_pow]
    exact Nat.pow_dvd_pow 2 (by decide)

theorem significant_le_significant {n m : Nat} (h : n ≤ m) : significant n ≤ significant m := by
  rcases Nat.lt_trichotomy n.log2 m.log2 with hlt | heq | hgt
  · -- a power of two is between them
    have hm : m ≠ 0 := by
      rintro rfl
      exact absurd hlt (Nat.not_lt_zero _)
    calc
      significant n ≤ 2 ^ (n.log2 + 1) :=
        significant_le (Nat.pow_dvd_pow 2 (by omega)) (Nat.le_of_lt Nat.lt_log2_self)
      _ ≤ 2 ^ m.log2 := Nat.pow_le_pow_right (by decide) hlt
      _ ≤ significant m := le_significant (Nat.pow_dvd_pow 2 (by omega)) (Nat.log2_self_le hm)
  · rw [significant, significant, heq]
    exact Nat.mul_le_mul_right _ (roundDiv_le_roundDiv _ h)
  · have hn : n ≠ 0 := by
      rintro rfl
      exact absurd hgt (Nat.not_lt_zero _)
    have hlow : 2 ^ (m.log2 + 1) ≤ n :=
      Nat.le_trans (Nat.pow_le_pow_right (by decide) hgt) (Nat.log2_self_le hn)
    have hhigh : m < 2 ^ (m.log2 + 1) := Nat.lt_log2_self
    omega

theorem log2_mul_two_pow (hn : n ≠ 0) (k : Nat) : (n * 2 ^ k).log2 = n.log2 + k := by
  have hpos := Nat.two_pow_pos k
  rw [Nat.log2_eq_iff (Nat.mul_ne_zero hn (Nat.ne_of_gt hpos)), Nat.add_right_comm, Nat.pow_add,
    Nat.pow_add]
  exact ⟨Nat.mul_le_mul_right _ (Nat.log2_self_le hn),
    Nat.mul_lt_mul_of_pos_right Nat.lt_log2_self hpos⟩

/-- Zeros behind a number do not matter. -/
theorem significant_mul_two_pow (n k : Nat) : significant (n * 2 ^ k) = significant n * 2 ^ k := by
  by_cases hn : n = 0
  · rw [hn, Nat.zero_mul, significant_of_le (Nat.zero_le _), Nat.zero_mul]
  by_cases hdigits : 23 ≤ n.log2
  · have hlog : n.log2 + k - 23 = n.log2 - 23 + k := by omega
    rw [significant, significant, log2_mul_two_pow hn, hlog, Nat.pow_add,
      roundDiv_mul_mul _ _ (Nat.two_pow_pos k), Nat.mul_assoc]
  · have hle : n ≤ 2 ^ 24 := by
      have hlt : n < 2 ^ (n.log2 + 1) := Nat.lt_log2_self
      exact Nat.le_trans (Nat.le_of_lt hlt) (Nat.pow_le_pow_right (by decide) (by omega))
    rw [significant_of_le hle, significant_of_dvd]
    rw [log2_mul_two_pow hn]
    exact Nat.dvd_trans (Nat.pow_dvd_pow 2 (by omega)) (Nat.dvd_mul_left _ n)

theorem significant_near (n : Nat) :
    2 * significant n ≤ 2 * n + 2 ^ (n.log2 - 23) ∧ 2 * n ≤ 2 * significant n + 2 ^ (n.log2 - 23) :=
  roundDiv_mul_near n (Nat.two_pow_pos _)

/-- A whole number of units that is not too large to be finite is rounded to 24 digits. -/
theorem units_roundPattern_one (h : n.log2 ≤ 275) : units (roundPattern n 1) = significant n := by
  have hunits := units_roundPattern n Nat.one_pos (by rwa [Nat.div_one])
  rwa [Nat.div_one, Nat.one_mul] at hunits

end Significant

end Single

end CellScript
