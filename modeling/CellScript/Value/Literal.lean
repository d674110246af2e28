/-
Module: CellScript.Value.Literal
Purpose: Values as sequences of bits, in the order in which a scan reads them.
Main exports: Bits.word, Bits.digits, Bits.octets, Value.ofBits?, Value.toBits
-/
import CellScript.Value

namespace CellScript

/-!
A scan reads the lowest bit first. So the bits of a number, turned round, are its binary digits from
the highest down. A text has eight digits for each character.
-/

namespace Bits

/-- The word with given binary digits, from the highest down. -/
def word (digits : List Bool) : UInt64 :=
  digits.foldl (fun acc digit => acc <<< 1 ||| digit.toUInt64) 0

/-- The binary digits of a word, from the highest down. -/
def digits (n : UInt32) : List Bool :=
  (List.range 32).reverse.map fun i => n >>> UInt32.ofNat i &&& 1 == 1

/-- Digits in groups of eight. If some are left over, they are the last group. -/
def octets : List Bool → List (List Bool)
  | a :: b :: c :: d :: e :: f :: g :: h :: rest => [a, b, c, d, e, f, g, h] :: octets rest
  | [] => []
  | short => [short]

end Bits

namespace Value

/-- The value of a literal's bits. -/
def ofBits? (type : ValueType) (bits : List Bool) : Except LiteralFault Value :=
  match type.checkWidth bits.length with
  | .error fault => .error fault
  | .ok () =>
      let digits := bits.reverse
      .ok <|
        match type with
        | .int => .int (Bits.word digits).toUInt32.toInt32
        | .float => .float ⟨(Bits.word digits).toUInt32⟩
        | .bool => .bool (Bits.word digits != 0)
        | .string =>
            .string (String.ofList ((Bits.octets digits).map fun byte =>
              Char.ofUInt8 (Bits.word byte).toUInt8))

/-- The binary digits of a value's literal, from the highest down. Of each character only the low
byte is kept, and the empty text has no digits. -/
def digits : Value → List Bool
  | int n => Bits.digits n.toUInt32
  | float x => Bits.digits x.bits
  | bool b => [b]
  | string s => s.toList.flatMap fun c => (Bits.digits c.val).drop 24

/-- The bits of a value's literal. -/
def toBits (v : Value) : List Bool :=
  v.digits.reverse

end Value

end CellScript
