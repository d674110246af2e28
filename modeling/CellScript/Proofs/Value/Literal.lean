/-
Module: CellScript.Proofs.Value.Literal
Purpose: Values and the bits of their literals. Reading the bits of a value gives the value back, as
  far as its literal holds it; writing a value that was read gives the bits in their usual form.
Main exports: Bits.toNat, Bits.ofNat, Bits.bytes, Bits.fit, Bits.toNat_ofNat, Bits.ofNat_toNat,
  Bits.toNat_eq_sum, Bits.toNat_word_reverse, Bits.reverse_digits, Value.ofBits, Value.ofBits?_eq,
  ValueType.usualBits, ValueType.Admits, lowBytes, Value.ofBits?_toBits_string,
  Value.toBits_of_ofBits?, Value.literal_roundTrip
-/
import CellScript.Value.Literal
import Mathlib.Algebra.BigOperators.Fin
import Mathlib.Tactic.Ring

namespace CellScript

/-!
### Binary digits

The digits of a natural and the natural of digits, both from the lowest digit up. A width cuts high
digits off or fills up with zeros.
-/

namespace Bits

/-- The natural whose binary digits, from the lowest up, are given. -/
def toNat : List Bool → Nat
  | [] => 0
  | b :: rest => b.toNat + 2 * toNat rest

/-- The lowest `width` binary digits of a natural, from the lowest up. -/
def ofNat : Nat → Nat → List Bool
  | 0, _ => []
  | width + 1, n => (n % 2 == 1) :: ofNat width (n / 2)

/-- Bits in groups of eight, as naturals. A rest of fewer than eight is dropped. -/
def bytes : List Bool → List Nat
  | a :: b :: c :: d :: e :: f :: g :: h :: rest => toNat [a, b, c, d, e, f, g, h] :: bytes rest
  | _ => []

/-- Bits cut off or filled up with zeros at their end, to a width. -/
def fit (width : Nat) (bits : List Bool) : List Bool :=
  bits.take width ++ List.replicate (width - bits.length) false

theorem fit_length (bits : List Bool) : fit bits.length bits = bits := by
  simp [fit]

@[simp] theorem length_ofNat (width n : Nat) : (ofNat width n).length = width := by
  induction width generalizing n with
  | zero => rfl
  | succ width ih => rw [ofNat, List.length_cons, ih]

theorem toNat_mod_two (n : Nat) : (n % 2 == 1).toNat = n % 2 := by
  rcases Nat.mod_two_eq_zero_or_one n with h | h <;> rw [h] <;> rfl

theorem toNat_ofNat (width n : Nat) : toNat (ofNat width n) = n % 2 ^ width := by
  induction width generalizing n with
  | zero => simp [ofNat, toNat, Nat.mod_one]
  | succ width ih =>
      rw [ofNat, toNat, ih, toNat_mod_two, pow_succ', Nat.mod_mul]

theorem ofNat_zero (width : Nat) : ofNat width 0 = List.replicate width false := by
  induction width with
  | zero => rfl
  | succ width ih =>
      rw [ofNat, Nat.zero_div, ih, List.replicate_succ]
      rfl

/-- Writing the natural of some bits gives the bits themselves, but for the width. -/
theorem ofNat_toNat (width : Nat) (bits : List Bool) :
    ofNat width (toNat bits) = fit width bits := by
  induction bits generalizing width with
  | nil => simp [toNat, ofNat_zero, fit]
  | cons b rest ih =>
      cases width with
      | zero => simp [ofNat, fit]
      | succ width =>
          have hlow : ((b.toNat + 2 * toNat rest) % 2 == 1) = b := by
            rw [Nat.add_mul_mod_self_left]
            cases b <;> rfl
          have hhigh : (b.toNat + 2 * toNat rest) / 2 = toNat rest := by
            have hb := b.toNat_lt
            omega
          rw [toNat, ofNat, hlow, hhigh, ih]
          simp [fit]

theorem ofNat_length_toNat (bits : List Bool) : ofNat bits.length (toNat bits) = bits := by
  rw [ofNat_toNat, fit_length]

/-- Digits above the width are not written. -/
theorem ofNat_mod (width n : Nat) : ofNat width (n % 2 ^ width) = ofNat width n := by
  have hfit := fit_length (ofNat width n)
  rw [length_ofNat] at hfit
  rw [← toNat_ofNat, ofNat_toNat, hfit]

/-- A word holds the lowest 32 of the digits that were put into it. -/
theorem ofNat_word (bits : List Bool) :
    ofNat 32 (UInt32.ofNat (toNat bits)).toNat = fit 32 bits := by
  rw [UInt32.toNat_ofNat', ofNat_mod, ofNat_toNat]

theorem toNat_lt (bits : List Bool) : toNat bits < 2 ^ bits.length := by
  induction bits with
  | nil => exact Nat.one_pos
  | cons b rest ih =>
      have hb := b.toNat_lt
      rw [toNat, List.length_cons, pow_succ]
      omega

/-- The bit at place `i` counts `2 ^ i`. -/
theorem toNat_eq_sum (bits : List Bool) :
    toNat bits = ∑ i : Fin bits.length, (bits.get i).toNat * 2 ^ (i : Nat) := by
  induction bits with
  | nil => rfl
  | cons b rest ih =>
      have hrest : ∑ i : Fin rest.length, (rest.get i).toNat * 2 ^ ((i : Nat) + 1) =
          2 * toNat rest := by
        rw [ih, Finset.mul_sum]
        refine Finset.sum_congr rfl fun i _ => ?_
        ring
      have hsum := Fin.sum_univ_succ fun i : Fin (rest.length + 1) =>
        ((b :: rest).get i).toNat * 2 ^ (i : Nat)
      refine Eq.trans ?_ hsum.symm
      rw [toNat, ← hrest]
      simp

/-! ### Bytes -/

theorem bytes_ofNat_append (n : Nat) (rest : List Bool) :
    bytes (ofNat 8 n ++ rest) = n % 256 :: bytes rest := by
  have hbyte : toNat (ofNat 8 n) = n % 256 := toNat_ofNat 8 n
  rw [← hbyte]
  rfl

/-- Of the naturals written as bytes the low bytes are read. -/
theorem bytes_flatMap_ofNat (ns : List Nat) :
    bytes (ns.flatMap (ofNat 8)) = ns.map (· % 256) := by
  induction ns with
  | nil => rfl
  | cons n ns ih => rw [List.flatMap_cons, bytes_ofNat_append, ih, List.map_cons]

theorem bytes_lt (bits : List Bool) : ∀ n ∈ bytes bits, n < 256 := by
  fun_induction bytes bits with
  | case1 a b c d e f g h rest ih =>
      intro n hn
      rcases List.mem_cons.1 hn with rfl | hn
      · simpa using toNat_lt [a, b, c, d, e, f, g, h]
      · exact ih n hn
  | case2 bits _ =>
      intro n hn
      cases hn

/-- Bits in whole bytes are none, or eight bits before bits in whole bytes. -/
theorem octet_induction {P : List Bool → Prop} (nil : P [])
    (octet : ∀ a b c d e f g i rest, rest.length % 8 = 0 → P rest →
      P (a :: b :: c :: d :: e :: f :: g :: i :: rest))
    {bits : List Bool} (h : bits.length % 8 = 0) : P bits := by
  fun_induction bytes bits with
  | case1 a b c d e f g i rest ih =>
      have hrest : rest.length % 8 = 0 := by
        simp only [List.length_cons] at h
        omega
      exact octet a b c d e f g i rest hrest (ih hrest)
  | case2 bits hshort =>
      match bits, hshort, h with
      | [], _, _ => exact nil
      | [_], _, h => simp at h
      | [_, _], _, h => simp at h
      | [_, _, _], _, h => simp at h
      | [_, _, _, _], _, h => simp at h
      | [_, _, _, _, _], _, h => simp at h
      | [_, _, _, _, _, _], _, h => simp at h
      | [_, _, _, _, _, _, _], _, h => simp at h
      | a :: b :: c :: d :: e :: f :: g :: i :: rest, hshort, _ =>
          exact absurd rfl (hshort a b c d e f g i rest)

/-- Bits in whole bytes are the digits of their bytes. -/
theorem flatMap_ofNat_bytes {bits : List Bool} (h : bits.length % 8 = 0) :
    (bytes bits).flatMap (ofNat 8) = bits := by
  refine octet_induction (P := fun bits => (bytes bits).flatMap (ofNat 8) = bits) rfl ?_ h
  intro a b c d e f g i rest _ ih
  have hbyte : ofNat 8 _ = _ := ofNat_length_toNat [a, b, c, d, e, f, g, i]
  rw [bytes, List.flatMap_cons, hbyte, ih]
  rfl

/-!
### From the highest digit down

Literals are read and written from the highest digit down, which is the other way round.
-/

theorem word_concat (ds : List Bool) (d : Bool) :
    word (ds ++ [d]) = word ds <<< 1 ||| d.toUInt64 := by
  rw [word, List.foldl_append]
  rfl

/-- A word holds the lowest 64 of the digits that are shifted into it. -/
theorem toNat_word_reverse (bits : List Bool) :
    (word bits.reverse).toNat = toNat bits % 2 ^ 64 := by
  induction bits with
  | nil => rfl
  | cons b rest ih =>
      have hb : b.toUInt64.toNat = b.toNat := by cases b <;> rfl
      have hlt : b.toNat < 2 ^ 1 := b.toNat_lt
      have hshift : (toNat rest % 2 ^ 64) <<< 1 % 2 ^ 64 = 2 ^ 1 * (toNat rest % 2 ^ 63) := by
        rw [Nat.shiftLeft_eq]
        omega
      rw [List.reverse_cons, word_concat, UInt64.toNat_or, UInt64.toNat_shiftLeft, ih, hb]
      refine (congrArg (· ||| b.toNat) hshift).trans ?_
      rw [← Nat.two_pow_add_eq_or_of_lt hlt, toNat]
      omega

theorem toNat_word_reverse_of_le {bits : List Bool} (h : bits.length ≤ 64) :
    (word bits.reverse).toNat = toNat bits := by
  rw [toNat_word_reverse]
  exact Nat.mod_eq_of_lt (lt_of_lt_of_le (toNat_lt bits) (Nat.pow_le_pow_right (by decide) h))

theorem toUInt32_word_reverse {bits : List Bool} (h : bits.length ≤ 64) :
    (word bits.reverse).toUInt32 = .ofNat (toNat bits) := by
  rw [← UInt32.toNat_inj, UInt64.toNat_toUInt32, toNat_word_reverse_of_le h, UInt32.toNat_ofNat']

/-- Bits are a number other than zero exactly if one of them is set. -/
theorem toNat_ne_zero_iff (bits : List Bool) : toNat bits ≠ 0 ↔ bits.any id = true := by
  induction bits with
  | nil => simp [toNat]
  | cons b rest ih =>
      rw [toNat, List.any_cons, Bool.or_eq_true, ← ih]
      cases b <;> simp

theorem word_reverse_bne_zero {bits : List Bool} (h : bits.length ≤ 64) :
    (word bits.reverse != 0) = bits.any id := by
  rw [Bool.eq_iff_iff, bne_iff_ne, ne_eq, ← UInt64.toNat_inj, toNat_word_reverse_of_le h]
  exact toNat_ne_zero_iff bits

theorem ofNat_eq_map (width n : Nat) : ofNat width n = (List.range width).map n.testBit := by
  induction width generalizing n with
  | zero => rfl
  | succ width ih =>
      rw [ofNat, ih, List.range_succ_eq_map, List.map_cons, List.map_map]
      refine congrArg₂ List.cons ?_ (List.map_congr_left fun i _ => ?_)
      · rw [Nat.testBit_zero, beq_eq_decide]
      · rw [Function.comp_apply, Nat.testBit_succ]

/-- The digits of a word, turned round, are those from the lowest up. -/
theorem reverse_digits (n : UInt32) : (digits n).reverse = ofNat 32 n.toNat := by
  rw [digits, List.map_reverse, List.reverse_reverse, ofNat_eq_map]
  refine List.map_congr_left fun i hi => ?_
  have hi : i < 32 := List.mem_range.1 hi
  have hplace : (UInt32.ofNat i).toNat % 32 = i := by
    rw [UInt32.toNat_ofNat']
    omega
  have hbit : (n >>> UInt32.ofNat i &&& 1).toNat = n.toNat / 2 ^ i % 2 := by
    rw [UInt32.toNat_and, UInt32.toNat_shiftRight, hplace, Nat.shiftRight_eq_div_pow]
    exact Nat.and_one_is_mod _
  rw [Nat.testBit_eq_decide_div_mod_eq, ← hbit, Bool.eq_iff_iff, beq_iff_eq, decide_eq_true_iff,
    ← UInt32.toNat_inj]
  rfl

theorem take_ofNat {k width : Nat} (h : k ≤ width) (n : Nat) :
    (ofNat width n).take k = ofNat k n := by
  rw [ofNat_eq_map, ofNat_eq_map, ← List.map_take, List.take_range, Nat.min_eq_left h]

/-- The lowest eight digits of a word. -/
theorem reverse_drop_digits (n : UInt32) : ((digits n).drop 24).reverse = ofNat 8 n.toNat := by
  have hlength : (digits n).length = 32 := by simp [digits]
  rw [List.reverse_drop, hlength, reverse_digits]
  exact take_ofNat (by decide) _

theorem octets_append {first : List Bool} (h : first.length % 8 = 0) (last : List Bool) :
    octets (first ++ last) = octets first ++ octets last := by
  refine octet_induction (P := fun first => octets (first ++ last) = octets first ++ octets last)
    rfl ?_ h
  intro a b c d e f g i rest _ ih
  simp only [List.cons_append, octets, ih]

/-- The bytes of bits that are read from the highest digit down come last to first. -/
theorem octets_reverse {bits : List Bool} (h : bits.length % 8 = 0) :
    octets bits.reverse = (bytes bits).reverse.map fun n => (ofNat 8 n).reverse := by
  refine octet_induction (P := fun bits =>
    octets bits.reverse = (bytes bits).reverse.map fun n => (ofNat 8 n).reverse) rfl ?_ h
  intro a b c d e f g i rest hrest ih
  have hbyte : ofNat 8 _ = _ := ofNat_length_toNat [a, b, c, d, e, f, g, i]
  have hreverse : (a :: b :: c :: d :: e :: f :: g :: i :: rest).reverse =
      rest.reverse ++ [i, g, f, e, d, c, b, a] := by
    simp
  rw [hreverse, octets_append (by simpa using hrest), ih, bytes, List.reverse_cons,
    List.map_append, List.map_singleton, hbyte]
  rfl

/-- The character of a byte that is read from the highest digit down. -/
theorem ofUInt8_word {n : Nat} (h : n < 256) :
    Char.ofUInt8 (word (ofNat 8 n).reverse).toUInt8 = Char.ofNat n := by
  have hword : (word (ofNat 8 n).reverse).toUInt8.toNat = n := by
    rw [UInt64.toNat_toUInt8, toNat_word_reverse_of_le (by simp), toNat_ofNat]
    omega
  rw [← Char.ofNat_toNat (Char.ofUInt8 _)]
  exact congrArg Char.ofNat hword

end Bits

/-!
### Values of bits

What is read from the highest digit down is what the bits give by their places.
-/

/-- How many bits a literal of a type may have. -/
def ValueType.Admits : ValueType → Nat → Prop
  | int, width => 1 ≤ width ∧ width ≤ 64
  | float, width => width = 32
  | string, width => 1 ≤ width ∧ width % 8 = 0
  | bool, width => 1 ≤ width ∧ width ≤ 64

theorem ValueType.checkWidth_eq_ok_iff (type : ValueType) (width : Nat) :
    type.checkWidth width = .ok () ↔ type.Admits width := by
  unfold checkWidth
  by_cases hzero : width = 0
  · subst hzero
    cases type <;> simp [Admits]
  · have hpos : 1 ≤ width := Nat.one_le_iff_ne_zero.2 hzero
    cases type <;> simp [Admits, hzero, hpos]

namespace Value

/-- The value of bits in a number that suits its type, each counted by its place. -/
def ofBits : ValueType → List Bool → Value
  | .int, bits => .int (.ofNat (Bits.toNat bits))
  | .float, bits => .float ⟨.ofNat (Bits.toNat bits)⟩
  | .bool, bits => .bool (bits.any id)
  | .string, bits => .string (String.ofList ((Bits.bytes bits).reverse.map Char.ofNat))

theorem ofBits?_eq {type : ValueType} {bits : List Bool}
    (h : type.checkWidth bits.length = .ok ()) : ofBits? type bits = .ok (ofBits type bits) := by
  have hadmits := (type.checkWidth_eq_ok_iff bits.length).1 h
  rw [ofBits?, h]
  refine congrArg Except.ok ?_
  cases type with
  | int => exact congrArg (fun w => int w.toInt32) (Bits.toUInt32_word_reverse hadmits.2)
  | float =>
      have hwidth : bits.length = 32 := hadmits
      exact congrArg (fun w => float ⟨w⟩) (Bits.toUInt32_word_reverse (by omega))
  | bool => exact congrArg bool (Bits.word_reverse_bne_zero hadmits.2)
  | string =>
      have hchars : (Bits.octets bits.reverse).map
          (fun byte => Char.ofUInt8 (Bits.word byte).toUInt8) =
          (Bits.bytes bits).reverse.map Char.ofNat := by
        rw [Bits.octets_reverse hadmits.2, List.map_map]
        refine List.map_congr_left fun n hn => ?_
        exact Bits.ofUInt8_word (Bits.bytes_lt bits n (List.mem_reverse.1 hn))
      exact congrArg (fun chars => string (String.ofList chars)) hchars

theorem toBits_int (n : Int32) : (int n).toBits = Bits.ofNat 32 n.toUInt32.toNat :=
  Bits.reverse_digits n.toUInt32

theorem toBits_float (x : Single) : (float x).toBits = Bits.ofNat 32 x.bits.toNat :=
  Bits.reverse_digits x.bits

theorem toBits_string (s : String) :
    (string s).toBits = (s.toList.reverse.map Char.toNat).flatMap (Bits.ofNat 8) := by
  rw [toBits, digits, List.reverse_flatMap, List.flatMap_map]
  exact congrArg (List.flatMap · _) (funext fun c => Bits.reverse_drop_digits c.val)

end Value

/-!
### Reading what was written

Of a text the literal holds the low byte of each character, and the empty text has no literal.
-/

/-- The text of the low bytes of a text's characters. -/
def lowBytes (s : String) : String :=
  String.ofList (s.toList.map fun c => Char.ofNat (c.toNat % 256))

theorem lowBytes_eq_self {s : String} (h : ∀ c ∈ s.toList, c.toNat < 256) : lowBytes s = s := by
  have hchars : (s.toList.map fun c => Char.ofNat (c.toNat % 256)) = s.toList.map id := by
    refine List.map_congr_left fun c hc => ?_
    rw [Nat.mod_eq_of_lt (h c hc), Char.ofNat_toNat]
    rfl
  rw [lowBytes, hchars, List.map_id, String.ofList_toList]

namespace Value

theorem ofBits?_toBits_int (n : Int32) : ofBits? .int (int n).toBits = .ok (int n) := by
  have hvalue : Bits.toNat (int n).toBits = n.toUInt32.toNat := by
    rw [toBits_int, Bits.toNat_ofNat, Nat.mod_eq_of_lt n.toUInt32.toNat_lt]
  have hwidth : ValueType.int.checkWidth (int n).toBits.length = .ok () := by
    rw [toBits_int, Bits.length_ofNat]
    rfl
  have hback : Int32.ofNat n.toUInt32.toNat = n :=
    congrArg UInt32.toInt32 (UInt32.ofNat_toNat (x := n.toUInt32))
  rw [ofBits?_eq hwidth, ofBits, hvalue, hback]

theorem ofBits?_toBits_float (x : Single) : ofBits? .float (float x).toBits = .ok (float x) := by
  have hvalue : Bits.toNat (float x).toBits = x.bits.toNat := by
    rw [toBits_float, Bits.toNat_ofNat, Nat.mod_eq_of_lt x.bits.toNat_lt]
  have hwidth : ValueType.float.checkWidth (float x).toBits.length = .ok () := by
    rw [toBits_float, Bits.length_ofNat]
    rfl
  rw [ofBits?_eq hwidth, ofBits, hvalue, UInt32.ofNat_toNat]

theorem ofBits?_toBits_bool (b : Bool) : ofBits? .bool (bool b).toBits = .ok (bool b) := by
  cases b <;> rfl

theorem length_toBits_string (s : String) : (string s).toBits.length = 8 * s.toList.length := by
  simp [toBits_string, List.length_flatMap, Function.comp_def, Nat.mul_comm]

theorem ofBits?_toBits_string {s : String} (h : s ≠ "") :
    ofBits? .string (string s).toBits = .ok (string (lowBytes s)) := by
  have hpos : 0 < s.toList.length :=
    List.length_pos_iff.2 fun hnil => h (String.toList_eq_nil_iff.1 hnil)
  have hwidth : ValueType.string.checkWidth (string s).toBits.length = .ok () := by
    rw [length_toBits_string, ValueType.checkWidth, if_neg (by omega), if_pos (by omega)]
  have hbytes : (Bits.bytes (string s).toBits).reverse.map Char.ofNat =
      s.toList.map fun c => Char.ofNat (c.toNat % 256) := by
    rw [toBits_string, Bits.bytes_flatMap_ofNat]
    simp
  rw [ofBits?_eq hwidth, ofBits, hbytes, lowBytes]

end Value

/-!
### Writing what was read

The bits of a number in single precision and of a text are the only ones of their value. An integer
or a truth value can be written in more ways than one, and has one usual form.
-/

/-- The usual form of the bits of a literal. -/
def ValueType.usualBits : ValueType → List Bool → List Bool
  | int, bits => Bits.fit 32 bits
  | float, bits => bits
  | string, bits => bits
  | bool, bits => [bits.any id]

namespace Value

/-- The width alone decides whether bits are read. -/
theorem ofBits?_isOk_iff (type : ValueType) (bits : List Bool) :
    (∃ v, ofBits? type bits = .ok v) ↔ type.Admits bits.length := by
  rw [← ValueType.checkWidth_eq_ok_iff]
  unfold ofBits?
  cases type.checkWidth bits.length <;> simp

/-- A byte is a character. -/
theorem toNat_ofNat_byte {n : Nat} (h : n < 256) : (Char.ofNat n).toNat = n := by
  have hvalid : n.isValidChar := Or.inl (by omega)
  rw [Char.ofNat, dif_pos hvalid]
  rfl

/-- A value that was read has the type that was asked for, and is written in the usual form. -/
theorem toBits_of_ofBits? {type : ValueType} {bits : List Bool} {v : Value}
    (h : ofBits? type bits = .ok v) : v.type = type ∧ v.toBits = type.usualBits bits := by
  have hadmits : type.Admits bits.length := (ofBits?_isOk_iff type bits).1 ⟨v, h⟩
  rw [ofBits?_eq ((type.checkWidth_eq_ok_iff _).2 hadmits)] at h
  cases h
  cases type with
  | int => exact ⟨rfl, (toBits_int _).trans (Bits.ofNat_word bits)⟩
  | float =>
      have hwidth : bits.length = 32 := hadmits
      refine ⟨rfl, (toBits_float _).trans ((Bits.ofNat_word bits).trans ?_)⟩
      rw [← hwidth, Bits.fit_length]
      rfl
  | string =>
      have hbytes : (Bits.bytes bits).flatMap (Bits.ofNat 8) = bits :=
        Bits.flatMap_ofNat_bytes hadmits.2
      have hchars : ((Bits.bytes bits).map Char.ofNat).map Char.toNat = Bits.bytes bits := by
        rw [List.map_map]
        refine (List.map_congr_left fun n hn => ?_).trans (List.map_id _)
        exact toNat_ofNat_byte (Bits.bytes_lt bits n hn)
      refine ⟨rfl, ?_⟩
      rw [ofBits, toBits_string, String.toList_ofList, ← List.map_reverse, List.reverse_reverse,
        hchars, hbytes]
      rfl
  | bool => exact ⟨rfl, rfl⟩

/-- An integer is read as the two's complement of its bits, each counted by its place. -/
theorem ofBits?_int_eq_sum {bits : List Bool} (h : ValueType.int.Admits bits.length) :
    ∃ n, ofBits? .int bits = .ok (int n) ∧
      n.toInt =
        Int.bmod (∑ i : Fin bits.length, (bits.get i).toNat * 2 ^ (i : Nat) : Nat) (2 ^ 32) := by
  refine ⟨.ofNat (Bits.toNat bits), ?_, ?_⟩
  · rw [ofBits?_eq ((ValueType.checkWidth_eq_ok_iff .int bits.length).2 h), ofBits]
  · rw [Int32.toInt_ofNat', Bits.toNat_eq_sum]
    rfl

/-- The bits of a number or a truth value are read as that value; this includes every pattern of a
single precision number. The bits of a text are read as the text of its low bytes, which is the text
itself where all its characters are bytes; only the empty text has no bits to read.

In turn bits are read exactly if their width suits the type. Written again, a single precision
number and a text have the bits that were read, an integer has these bits cut off or filled up to
32, and a truth value has one bit, which says whether any was set. -/
theorem literal_roundTrip :
    (∀ v : Value, v.type ≠ .string → ofBits? v.type v.toBits = .ok v) ∧
      (∀ s : String, s ≠ "" → (∀ c ∈ s.toList, c.toNat < 256) →
        ofBits? .string (string s).toBits = .ok (string s)) ∧
      (∀ s : String, s ≠ "" → ofBits? .string (string s).toBits = .ok (string (lowBytes s))) ∧
      ofBits? .string (string "").toBits = .error (.noBits .string) ∧
      (∀ (type : ValueType) (bits : List Bool),
        (∃ v, ofBits? type bits = .ok v) ↔ type.Admits bits.length) ∧
      (∀ (type : ValueType) (bits : List Bool) (v : Value), ofBits? type bits = .ok v →
        v.type = type ∧ v.toBits = type.usualBits bits) ∧
      ∀ bits : List Bool, 1 ≤ bits.length → bits.length ≤ 64 →
        ∃ n, ofBits? .int bits = .ok (int n) ∧
          n.toInt = Int.bmod
            (∑ i : Fin bits.length, (bits.get i).toNat * 2 ^ (i : Nat) : Nat) (2 ^ 32) := by
  refine ⟨?_, ?_, fun s => ofBits?_toBits_string, rfl, ofBits?_isOk_iff,
    fun type bits v => toBits_of_ofBits?, fun bits hlow hhigh => ofBits?_int_eq_sum ⟨hlow, hhigh⟩⟩
  · intro v hv
    cases v with
    | int n => exact ofBits?_toBits_int n
    | float x => exact ofBits?_toBits_float x
    | bool b => exact ofBits?_toBits_bool b
    | string s => exact absurd rfl hv
  · intro s hs hbytes
    rw [ofBits?_toBits_string hs, lowBytes_eq_self hbytes]

/-- A text of two bytes is read back, and of 33 bits an integer keeps 32. -/
theorem literal_roundTrip_twoBytes :
    ofBits? .string (string "hé").toBits = .ok (string "hé") ∧
      ofBits? .string (string "hλ").toBits = .ok (string "h»") ∧
      ∃ n, ofBits? .int (true :: List.replicate 32 true) = .ok (int n) ∧
        (int n).toBits = List.replicate 32 true := by
  obtain ⟨_, hbytes, hlow, _, _, hwritten, hint⟩ := literal_roundTrip
  obtain ⟨n, hn, _⟩ := hint (true :: List.replicate 32 true) (by decide) (by decide)
  refine ⟨hbytes "hé" (by decide) (by simp), hlow "hλ" (by decide), n, hn, ?_⟩
  exact (hwritten _ _ _ hn).2

end Value

end CellScript
