/-
Module: CellScript.Proofs.Number.DecimalText
Purpose: Which texts stand for decimals, and which decimals: digits with an optional point, and an
  optional exponent. Every layout of a decimal is such a text, of the same value.
Main exports: Single.Mantissa, Single.DecimalText, Single.DecimalText.readDecimal?_eq,
  Decimal.decimalText_layout
-/
import CellScript.Proofs.Number.DecimalValue
import CellScript.Proofs.Value.IntegerText
import Mathlib.Data.List.TakeWhile
import Mathlib.Tactic.SplitIfs

namespace CellScript

open Text (Digits Numeral)

namespace Single

/-- Digits with at most one point among them, and the decimal for which they stand. -/
inductive Mantissa : List Char → Decimal → Prop where
  | whole {cs : List Char} {n : Nat} (h : Digits cs n) : Mantissa cs ⟨n, 0⟩
  | point {whole fraction : List Char} {n : Nat} (hwhole : whole ≠ [])
      (h : Digits (whole ++ fraction) n) :
      Mantissa (whole ++ '.' :: fraction) ⟨n, -(fraction.length : Int)⟩

/-- A mantissa with an optional exponent below the cap, and the decimal for which they stand. -/
inductive DecimalText : List Char → Decimal → Prop where
  | plain {cs : List Char} {d : Decimal} (h : Mantissa cs d) : DecimalText cs d
  | exponent {cs rest : List Char} {d : Decimal} {k : Int} (h : Mantissa cs d)
      (hexponent : Numeral rest k) (hcap : k.natAbs < exponentCap) :
      DecimalText (cs ++ 'e' :: rest) ⟨d.digits, d.exponent + k⟩

variable {cs : List Char} {n : Nat} {d : Decimal}

/-!
### Reading
-/

theorem isDigit_of_digits (h : Digits cs n) : ∀ c ∈ cs, c.isDigit = true :=
  (Text.readDigits?_eq_some.1 h.readDigits?_eq).2.1

theorem ne_nil_of_digits (h : Digits cs n) : cs ≠ [] :=
  (Text.readDigits?_eq_some.1 h.readDigits?_eq).1

theorem ofDigitChars_of_digits (h : Digits cs n) : Nat.ofDigitChars 10 cs 0 = n :=
  (Text.readDigits?_eq_some.1 h.readDigits?_eq).2.2

/-- A run of characters and the character that stops it. -/
theorem takeWhile_dropWhile_run {p : Char → Bool} {run : List Char} {c : Char}
    (hrun : ∀ c ∈ run, p c = true) (hc : ¬p c = true) (rest : List Char) :
    (run ++ c :: rest).takeWhile p = run ∧ (run ++ c :: rest).dropWhile p = c :: rest := by
  rw [List.takeWhile_append_of_pos hrun, List.dropWhile_append_of_pos hrun,
    List.takeWhile_cons_of_neg hc, List.dropWhile_cons_of_neg hc, List.append_nil]
  exact ⟨rfl, rfl⟩

theorem Mantissa.readMantissa?_eq (h : Mantissa cs d) : readMantissa? cs = some d := by
  cases h with
  | @whole _ n h =>
      have hdigits := isDigit_of_digits h
      have hwhole : cs.takeWhile Char.isDigit = cs := List.takeWhile_eq_self_iff.2 hdigits
      have hrest : cs.dropWhile Char.isDigit = [] := List.dropWhile_eq_nil_iff.2 hdigits
      simp [readMantissa?, hwhole, hrest, ne_nil_of_digits h, ofDigitChars_of_digits h]
  | @point whole fraction n hwhole h =>
      obtain ⟨hleft, hright⟩ := List.forall_mem_append.1 (isDigit_of_digits h)
      obtain ⟨htake, hdrop⟩ :=
        takeWhile_dropWhile_run hleft (by decide : ¬Char.isDigit '.' = true) fraction
      have hall : fraction.all Char.isDigit = true := List.all_eq_true.2 hright
      simp [readMantissa?, htake, hdrop, hall, hwhole, ofDigitChars_of_digits h]

/-- Below the cap every digit of an exponent counts. -/
theorem readExponent?_of_digits (h : Digits cs n) (hcap : n < exponentCap) :
    readExponent? cs = some n := by
  have hfold : cs.foldl (fun n c => if n < exponentCap then 10 * n + (c.toNat - '0'.toNat) else n)
      0 = n := by
    induction h with
    | @one d hd =>
        have hdigit := Nat.toNat_digitChar_of_lt_ten hd
        have hzero : '0'.toNat = 48 := rfl
        simp [exponentCap, hdigit, hzero]
    | @snoc cs n d hcs hd ih =>
        -- the digits before the last are below the cap too
        have hbelow : n < exponentCap := by omega
        have hdigit := Nat.toNat_digitChar_of_lt_ten hd
        have hzero : '0'.toNat = 48 := rfl
        rw [List.foldl_append, ih hbelow, List.foldl_cons, List.foldl_nil, if_pos hbelow, hdigit,
          hzero, Nat.add_sub_cancel_left]
  have hdigits : cs.all Char.isDigit = true := List.all_eq_true.2 (isDigit_of_digits h)
  have hne : cs.isEmpty = false := List.isEmpty_eq_false_iff.2 (ne_nil_of_digits h)
  rw [readExponent?, hfold, hdigits, hne]
  rfl

theorem readSignedExponent?_of_numeral {k : Int} (h : Numeral cs k)
    (hcap : k.natAbs < exponentCap) : readSignedExponent? cs = some k := by
  cases h with
  | plain h =>
      have hdigits := isDigit_of_digits h
      unfold readSignedExponent?
      split
      · exact absurd (hdigits '-' (by simp)) (by decide)
      · exact absurd (hdigits '+' (by simp)) (by decide)
      · rw [readExponent?_of_digits h hcap]
        rfl
  | plus h =>
      rw [readSignedExponent?, readExponent?_of_digits h hcap]
      rfl
  | minus h =>
      rw [Int.natAbs_neg] at hcap
      rw [readSignedExponent?, readExponent?_of_digits h hcap]
      rfl

/-- The characters of a mantissa are digits and the point. -/
theorem Mantissa.isDigit_or_point (h : Mantissa cs d) : ∀ c ∈ cs, c.isDigit = true ∨ c = '.' := by
  intro c hc
  cases h with
  | whole h => exact .inl (isDigit_of_digits h c hc)
  | @point whole fraction n hwhole h =>
      have hdigits := isDigit_of_digits h c
      simp only [List.mem_append, List.mem_cons] at hc hdigits
      rcases hc with hc | rfl | hc
      · exact .inl (hdigits (.inl hc))
      · exact .inr rfl
      · exact .inl (hdigits (.inr hc))

theorem Mantissa.not_isExponentMark (h : Mantissa cs d) :
    ∀ c ∈ cs, (!isExponentMark c) = true := by
  intro c hc
  rcases h.isDigit_or_point c hc with hdigit | rfl
  · obtain ⟨k, hk, rfl⟩ := Text.exists_digitChar_of_isDigit hdigit
    exact (by decide : ∀ k < 10, (!isExponentMark k.digitChar) = true) k hk
  · decide

theorem DecimalText.readDecimal?_eq (h : DecimalText cs d) : readDecimal? cs = some d := by
  cases h with
  | plain h =>
      have hmarks := h.not_isExponentMark
      simp only [readDecimal?, List.takeWhile_eq_self_iff.2 hmarks,
        List.dropWhile_eq_nil_iff.2 hmarks, h.readMantissa?_eq]
  | @exponent cs rest d k h hexponent hcap =>
      obtain ⟨htake, hdrop⟩ :=
        takeWhile_dropWhile_run (c := 'e') h.not_isExponentMark (by decide) rest
      simp only [readDecimal?, htake, hdrop, h.readMantissa?_eq,
        readSignedExponent?_of_numeral hexponent hcap, Option.map_some]

theorem Mantissa.exists_cons (h : Mantissa cs d) :
    ∃ c rest, cs = c :: rest ∧ c.isDigit = true := by
  cases h with
  | whole h =>
      obtain ⟨c, rest, rfl⟩ := List.exists_cons_of_ne_nil (ne_nil_of_digits h)
      exact ⟨c, rest, rfl, isDigit_of_digits h c (by simp)⟩
  | point hwhole h =>
      obtain ⟨c, rest, rfl⟩ := List.exists_cons_of_ne_nil hwhole
      exact ⟨c, _, rfl, isDigit_of_digits h c (by simp)⟩

/-- The text of a decimal starts with a digit. -/
theorem DecimalText.exists_cons (h : DecimalText cs d) :
    ∃ c rest, cs = c :: rest ∧ c.isDigit = true := by
  cases h with
  | plain h => exact h.exists_cons
  | exponent h hexponent hcap =>
      obtain ⟨c, rest, rfl, hc⟩ := h.exists_cons
      exact ⟨c, _, rfl, hc⟩

theorem not_isBlank_of_isDigit {c : Char} (h : c.isDigit = true) : Text.isBlank c = false := by
  obtain ⟨k, hk, rfl⟩ := Text.exists_digitChar_of_isDigit h
  exact (by decide : ∀ k < 10, Text.isBlank k.digitChar = false) k hk

theorem not_isBlank_of_digits (h : Digits cs n) : ∀ c ∈ cs, Text.isBlank c = false :=
  fun c hc => not_isBlank_of_isDigit (isDigit_of_digits h c hc)

theorem not_isBlank_of_numeral {k : Int} (h : Numeral cs k) :
    ∀ c ∈ cs, Text.isBlank c = false := by
  cases h with
  | plain h => exact not_isBlank_of_digits h
  | plus h => exact List.forall_mem_cons.2 ⟨by decide, not_isBlank_of_digits h⟩
  | minus h => exact List.forall_mem_cons.2 ⟨by decide, not_isBlank_of_digits h⟩

theorem Mantissa.not_isBlank (h : Mantissa cs d) : ∀ c ∈ cs, Text.isBlank c = false := by
  intro c hc
  rcases h.isDigit_or_point c hc with hdigit | rfl
  · exact not_isBlank_of_isDigit hdigit
  · decide

/-- No character of a decimal's text is white space. -/
theorem DecimalText.not_isBlank (h : DecimalText cs d) : ∀ c ∈ cs, Text.isBlank c = false := by
  cases h with
  | plain h => exact h.not_isBlank
  | exponent h hexponent hcap =>
      exact List.forall_mem_append.2
        ⟨h.not_isBlank, List.forall_mem_cons.2 ⟨by decide, not_isBlank_of_numeral hexponent⟩⟩

end Single

/-!
### Layouts
-/

namespace Decimal

open Single (Mantissa DecimalText)

theorem digits_append_zeros {cs : List Char} {n : Nat} (h : Digits cs n) (k : Nat) :
    Digits (cs ++ List.replicate k '0') (n * 10 ^ k) := by
  induction k with
  | zero => simpa using h
  | succ k ih =>
      have hsnoc := Digits.snoc ih (d := 0) (by decide)
      rw [List.append_assoc] at hsnoc
      rw [List.replicate_succ', Nat.pow_succ, ← Nat.mul_assoc, Nat.mul_comm _ 10]
      exact hsnoc

theorem digits_zeros_append {cs : List Char} {n : Nat} (h : Digits cs n) (k : Nat) :
    Digits (List.replicate k '0' ++ cs) n := by
  rw [← Text.readDigits?_eq_some_iff, Text.readDigits?_eq_some] at h ⊢
  obtain ⟨hne, hdigits, hvalue⟩ := h
  refine ⟨by simp [hne], List.forall_mem_append.2 ⟨?_, hdigits⟩, ?_⟩
  · intro c hc
    rw [List.eq_of_mem_replicate hc]
    decide
  · rw [Nat.ofDigitChars_append, Nat.ofDigitChars_replicate_zero, Nat.mul_zero, hvalue]

/-- The exponent of the leading digit, which decides on the layout. -/
def lead (d : Decimal) : Int :=
  d.exponent + (Nat.toDigits 10 d.digits).length - 1

theorem toList_zeros (n : Nat) : (zeros n).toList = List.replicate n '0' :=
  String.toList_ofList

/-- The characters of the layouts, each split where the reader splits it. -/
theorem toList_layout (d : Decimal) :
    d.layout.toList =
      if -4 ≤ d.lead ∧ d.lead < 16 then
        if d.lead < 0 then
          ['0'] ++ '.' :: (List.replicate (-d.lead - 1).toNat '0' ++ Nat.toDigits 10 d.digits)
        else if d.lead.toNat + 1 < (Nat.toDigits 10 d.digits).length then
          (Nat.toDigits 10 d.digits).take (d.lead.toNat + 1) ++
            '.' :: (Nat.toDigits 10 d.digits).drop (d.lead.toNat + 1)
        else
          (Nat.toDigits 10 d.digits ++
            List.replicate (d.lead.toNat + 1 - (Nat.toDigits 10 d.digits).length) '0') ++
              '.' :: ['0']
      else
        ((Nat.toDigits 10 d.digits).take 1 ++
          if (Nat.toDigits 10 d.digits).length = 1 then []
          else '.' :: (Nat.toDigits 10 d.digits).drop 1) ++
            'e' :: (Text.integerText d.lead).toList := by
  simp only [layout, ← lead.eq_1]
  split_ifs <;> simp [toList_zeros]

variable {d : Decimal}

/-- Zeros between the point and the digits keep the decimal. -/
theorem mantissa_below_one (hneg : d.lead < 0) :
    Mantissa
      (['0'] ++ '.' :: (List.replicate (-d.lead - 1).toNat '0' ++ Nat.toDigits 10 d.digits)) d := by
  have hdigits := digits_zeros_append (Text.digits_toDigits d.digits) ((-d.lead - 1).toNat + 1)
  rw [List.replicate_succ, List.cons_append, ← List.singleton_append] at hdigits
  have hmantissa := Mantissa.point (List.cons_ne_nil '0' []) hdigits
  have hexponent : -(((List.replicate (-d.lead - 1).toNat '0' ++
      Nat.toDigits 10 d.digits).length : Nat) : Int) = d.exponent := by
    rw [List.length_append, List.length_replicate]
    unfold lead at hneg ⊢
    omega
  rwa [hexponent] at hmantissa

/-- A point between the digits counts those behind it. -/
theorem mantissa_split {k : Nat} (hpos : 0 < k) (hk : k < (Nat.toDigits 10 d.digits).length) :
    Mantissa ((Nat.toDigits 10 d.digits).take k ++ '.' :: (Nat.toDigits 10 d.digits).drop k)
      ⟨d.digits, k - (Nat.toDigits 10 d.digits).length⟩ := by
  have hdigits := Text.digits_toDigits d.digits
  rw [← List.take_append_drop k (Nat.toDigits 10 d.digits)] at hdigits
  have hne : (Nat.toDigits 10 d.digits).take k ≠ [] := by
    apply List.ne_nil_of_length_pos
    rw [List.length_take]
    omega
  have hmantissa := Mantissa.point hne hdigits
  have hexponent : -(((Nat.toDigits 10 d.digits).drop k).length : Int) =
      k - (Nat.toDigits 10 d.digits).length := by
    rw [List.length_drop]
    omega
  rwa [hexponent] at hmantissa

/-- Zeros behind the digits, the last of them after the point. -/
theorem mantissa_zeros (d : Decimal) (k : Nat) :
    Mantissa ((Nat.toDigits 10 d.digits ++ List.replicate k '0') ++ '.' :: ['0'])
      ⟨d.digits * 10 ^ (k + 1), -1⟩ := by
  have hdigits := digits_append_zeros (Text.digits_toDigits d.digits) (k + 1)
  rw [List.replicate_succ', ← List.append_assoc] at hdigits
  exact Mantissa.point (by simp [Nat.toDigits_ne_nil]) hdigits

/-- The mantissa of a layout with an exponent has one digit before the point. -/
theorem mantissa_scientific (d : Decimal) :
    Mantissa
      ((Nat.toDigits 10 d.digits).take 1 ++
        if (Nat.toDigits 10 d.digits).length = 1 then []
        else '.' :: (Nat.toDigits 10 d.digits).drop 1)
      ⟨d.digits, 1 - (Nat.toDigits 10 d.digits).length⟩ := by
  have hpos := Nat.length_toDigits_pos (b := 10) (n := d.digits)
  split
  · rename_i hone
    rw [List.append_nil, List.take_of_length_le (Nat.le_of_eq hone), hone]
    exact .whole (Text.digits_toDigits d.digits)
  · exact mantissa_split Nat.one_pos (by omega)

/-- Every layout stands for a decimal of the same value. Only that with zeros behind the digits
stands for another decimal. -/
theorem decimalText_layout (hcap : d.lead.natAbs < Single.exponentCap) :
    ∃ d', DecimalText d.layout.toList d' ∧ d'.value = d.value := by
  rw [toList_layout]
  by_cases hplain : -4 ≤ d.lead ∧ d.lead < 16
  · rw [if_pos hplain]
    split_ifs with hneg hsplit
    · exact ⟨d, .plain (mantissa_below_one hneg), rfl⟩
    · refine ⟨_, .plain (mantissa_split (Nat.succ_pos _) hsplit), ?_⟩
      have hexponent : ((d.lead.toNat + 1 : Nat) : Int) - (Nat.toDigits 10 d.digits).length =
          d.exponent := by
        unfold lead at hneg ⊢
        omega
      rw [hexponent]
    · refine ⟨_, .plain (mantissa_zeros d _), ?_⟩
      have hexponent : (-1 : Int) +
          ((d.lead.toNat + 1 - (Nat.toDigits 10 d.digits).length + 1 : Nat) : Int) =
            d.exponent := by
        unfold lead at hneg hsplit ⊢
        omega
      rw [value_add_zeros, hexponent]
  · rw [if_neg hplain]
    refine ⟨_, .exponent (mantissa_scientific d) (Text.numeral_integerText d.lead) hcap, ?_⟩
    have hexponent : 1 - ((Nat.toDigits 10 d.digits).length : Int) + d.lead = d.exponent := by
      unfold lead
      omega
    rw [hexponent]

end Decimal

end CellScript
