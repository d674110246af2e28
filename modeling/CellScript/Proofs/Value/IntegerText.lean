/-
Module: CellScript.Proofs.Value.IntegerText
Purpose: Which texts stand for integers, and which integers: an optional sign and decimal digits.
  The text of an integer is one of them, so that converting an integer to a text and back gives it
  again.
Main exports: Text.Digits, Text.Numeral, Text.readDigits?_eq_some_iff,
  Text.readInteger?_eq_some_iff, Text.numeral_integerText, Value.coerce_int_string
-/
import CellScript.Value
import Mathlib.Algebra.Group.Int.Defs
import Mathlib.Data.List.Induction

namespace CellScript

namespace Text

/-!
### Numerals

A numeral may have any number of zeros before its other digits.
-/

/-- One or more decimal digits, and the natural for which they stand. -/
inductive Digits : List Char → Nat → Prop where
  | one {d : Nat} (hd : d < 10) : Digits [d.digitChar] d
  | snoc {cs : List Char} {n d : Nat} (hcs : Digits cs n) (hd : d < 10) :
      Digits (cs ++ [d.digitChar]) (10 * n + d)

/-- Digits with at most one sign before them, and the integer for which they stand. -/
inductive Numeral : List Char → Int → Prop where
  | plain {cs : List Char} {n : Nat} (h : Digits cs n) : Numeral cs n
  | plus {cs : List Char} {n : Nat} (h : Digits cs n) : Numeral ('+' :: cs) n
  | minus {cs : List Char} {n : Nat} (h : Digits cs n) : Numeral ('-' :: cs) (-n)

variable {cs : List Char} {n : Nat}

/-! ### Reading -/

theorem readDigits?_eq_some :
    readDigits? cs = some n ↔
      cs ≠ [] ∧ (∀ c ∈ cs, c.isDigit = true) ∧ Nat.ofDigitChars 10 cs 0 = n := by
  simp [readDigits?, and_assoc]

/-- A digit is the character of its value. -/
theorem exists_digitChar_of_isDigit {c : Char} (h : c.isDigit = true) :
    ∃ d < 10, c = d.digitChar := by
  obtain ⟨hlow, hhigh⟩ := Char.isDigit_iff_toNat.1 h
  have hzero : '0'.toNat = 48 := rfl
  have hnine : '9'.toNat = 57 := rfl
  have hlt : c.toNat - 48 < 10 := by omega
  refine ⟨c.toNat - 48, hlt, Char.toNat_inj.1 ?_⟩
  rw [Nat.toNat_digitChar_of_lt_ten hlt]
  omega

theorem ofDigitChars_snoc {d : Nat} (hd : d < 10) (cs : List Char) :
    Nat.ofDigitChars 10 (cs ++ [d.digitChar]) 0 = 10 * Nat.ofDigitChars 10 cs 0 + d := by
  have hzero : '0'.toNat = 48 := rfl
  rw [Nat.ofDigitChars_append, Nat.ofDigitChars_cons, Nat.ofDigitChars_nil,
    Nat.toNat_digitChar_of_lt_ten hd, hzero, Nat.add_sub_cancel_left]

theorem Digits.readDigits?_eq (h : Digits cs n) : readDigits? cs = some n := by
  rw [readDigits?_eq_some]
  induction h with
  | @one d hd =>
      have hdigit : d.digitChar.isDigit = true := by simp [Nat.isDigit_digitChar, hd]
      exact ⟨by simp, by simp [hdigit], by simpa using ofDigitChars_snoc hd []⟩
  | @snoc cs n d hcs hd ih =>
      have hdigit : d.digitChar.isDigit = true := by simp [Nat.isDigit_digitChar, hd]
      obtain ⟨-, hdigits, hvalue⟩ := ih
      refine ⟨by simp, ?_, by rw [ofDigitChars_snoc hd, hvalue]⟩
      exact List.forall_mem_append.2 ⟨hdigits, by simp [hdigit]⟩

/-- Digits stand for their number in base ten. -/
theorem digits_ofDigitChars (hcs : cs ≠ []) (hdigits : ∀ c ∈ cs, c.isDigit = true) :
    Digits cs (Nat.ofDigitChars 10 cs 0) := by
  induction cs using List.reverseRecOn with
  | nil => exact absurd rfl hcs
  | append_singleton cs c ih =>
      obtain ⟨hfront, hlast⟩ := List.forall_mem_append.1 hdigits
      obtain ⟨d, hd, rfl⟩ := exists_digitChar_of_isDigit (hlast c (by simp))
      rw [ofDigitChars_snoc hd]
      rcases eq_or_ne cs [] with rfl | hne
      · simpa using Digits.one hd
      · exact .snoc (ih hne hfront) hd

theorem readDigits?_eq_some_iff : readDigits? cs = some n ↔ Digits cs n := by
  constructor
  · intro h
    obtain ⟨hne, hdigits, rfl⟩ := readDigits?_eq_some.1 h
    exact digits_ofDigitChars hne hdigits
  · intro h
    exact h.readDigits?_eq

/-- A sign is no digit. -/
theorem readInteger?_of_digits (h : Digits cs n) : readInteger? cs = some (n : Int) := by
  have hread := h.readDigits?_eq
  have hdigits := (readDigits?_eq_some.1 hread).2.1
  unfold readInteger?
  split
  · exact absurd (hdigits '-' (by simp)) (by decide)
  · exact absurd (hdigits '+' (by simp)) (by decide)
  · rw [hread]
    rfl

/-- The reader takes numerals and nothing else. -/
theorem readInteger?_eq_some_iff {k : Int} : readInteger? cs = some k ↔ Numeral cs k := by
  constructor
  · intro h
    unfold readInteger? at h
    split at h
    · obtain ⟨n, hn, rfl⟩ := Option.map_eq_some_iff.1 h
      exact .minus (readDigits?_eq_some_iff.1 hn)
    · obtain ⟨n, hn, rfl⟩ := Option.map_eq_some_iff.1 h
      exact .plus (readDigits?_eq_some_iff.1 hn)
    · obtain ⟨n, hn, rfl⟩ := Option.map_eq_some_iff.1 h
      exact .plain (readDigits?_eq_some_iff.1 hn)
  · intro h
    cases h with
    | plain h => exact readInteger?_of_digits h
    | plus h => rw [readInteger?, h.readDigits?_eq, Option.map_some]
    | minus h => rw [readInteger?, h.readDigits?_eq, Option.map_some]

/-! ### Writing -/

/-- The text of a natural is made of digits that stand for it. -/
theorem digits_toDigits (n : Nat) : Digits (Nat.toDigits 10 n) n := by
  induction n using Nat.strongRecOn with
  | ind n ih =>
      rcases Nat.lt_or_ge n 10 with hlt | hge
      · rw [Nat.toDigits_of_lt_base hlt]
        exact .one hlt
      · rw [Nat.toDigits_of_base_le (by decide) hge]
        have hsnoc := Digits.snoc (ih (n / 10) (by omega)) (Nat.mod_lt n (by decide : 10 > 0))
        rwa [Nat.div_add_mod] at hsnoc

theorem numeral_integerText (k : Int) : Numeral (integerText k).toList k := by
  cases k with
  | ofNat n =>
      rw [integerText, Nat.toList_repr]
      exact .plain (digits_toDigits n)
  | negSucc n =>
      rw [integerText, String.toList_append, Nat.toList_repr]
      exact .minus (digits_toDigits (n + 1))

end Text

/-! ### Converting -/

namespace Value

theorem readInt?_eq_some_iff {s : String} {n : Int32} :
    readInt? s = some n ↔
      ∃ k : Int, Text.Numeral s.toList k ∧ -2 ^ 31 ≤ k ∧ k < 2 ^ 31 ∧ n = .ofInt k := by
  have hmin : Int32.minValue.toInt = -2 ^ 31 := rfl
  have hmax : Int32.maxValue.toInt = 2 ^ 31 - 1 := rfl
  rw [readInt?, hmin, hmax]
  cases hread : Text.readInteger? s.toList with
  | none =>
      refine ⟨nofun, ?_⟩
      rintro ⟨k, hk, -⟩
      rw [Text.readInteger?_eq_some_iff.2 hk] at hread
      cases hread
  | some k =>
      have hk : Text.Numeral s.toList k := Text.readInteger?_eq_some_iff.1 hread
      constructor
      · intro h
        obtain ⟨⟨hlow, hhigh⟩, hn⟩ := Option.ite_none_right_eq_some.1 h
        cases hn
        exact ⟨k, hk, hlow, by omega, rfl⟩
      · rintro ⟨k', hk', hlow, hhigh, rfl⟩
        rw [Text.readInteger?_eq_some_iff.2 hk'] at hread
        cases hread
        exact if_pos ⟨hlow, by omega⟩

theorem coerce?_string_int_iff {s : String} {v : Value} :
    (string s).coerce? .int = some v ↔
      ∃ k : Int, Text.Numeral s.toList k ∧ -2 ^ 31 ≤ k ∧ k < 2 ^ 31 ∧ v = int (.ofInt k) := by
  rw [coerce?, toInt?, Option.map_eq_some_iff]
  simp only [readInt?_eq_some_iff]
  constructor
  · rintro ⟨n, ⟨k, hk, hlow, hhigh, rfl⟩, rfl⟩
    exact ⟨k, hk, hlow, hhigh, rfl⟩
  · rintro ⟨k, hk, hlow, hhigh, rfl⟩
    exact ⟨_, ⟨k, hk, hlow, hhigh, rfl⟩, rfl⟩

/-- An integer converted to a text and back is the same. A text converts to an integer exactly if it
is at most one sign and then decimal digits, and what they stand for is in the range of 32 bits; and
then it converts to just that integer. -/
theorem coerce_int_string :
    (∀ n : Int32, ((int n).coerce? .string).bind (fun v => v.coerce? .int) = some (int n)) ∧
      ∀ (s : String) (v : Value),
        (string s).coerce? .int = some v ↔
          ∃ k : Int, Text.Numeral s.toList k ∧ -2 ^ 31 ≤ k ∧ k < 2 ^ 31 ∧ v = int (.ofInt k) := by
  refine ⟨fun n => ?_, fun s v => coerce?_string_int_iff⟩
  apply coerce?_string_int_iff.2
  refine ⟨n.toInt, Text.numeral_integerText n.toInt, n.le_toInt, n.toInt_lt, ?_⟩
  rw [Int32.ofInt_toInt]

/-- The least integer has no counterpart above zero, and blanks are not accepted. -/
example : (string "-002147483648").coerce? .int = some (int Int32.minValue) ∧
    (string "+2147483648").coerce? .int = none ∧ (string " 7").coerce? .int = none := by
  decide +kernel

end Value

end CellScript
