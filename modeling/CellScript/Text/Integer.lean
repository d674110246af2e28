/-
Module: CellScript.Text.Integer
Purpose: Decimal text of integers, and the reader that accepts one optional sign and digits.
Main exports: integerText, readDigits?, readInteger?
-/

namespace CellScript.Text

/-!
An integer is written with a minus sign when negative, and no leading zeros. The reader takes
more than the writer makes: a plus sign and leading zeros are accepted, blanks are not.
-/

/-- The decimal text of an integer. -/
def integerText : Int → String
  | .ofNat n => n.repr
  | .negSucc n => "-" ++ (n + 1).repr

/-- The value of one or more decimal digits; `none` for no digit or another character. -/
def readDigits? (cs : List Char) : Option Nat :=
  if !cs.isEmpty && cs.all Char.isDigit then some (Nat.ofDigitChars 10 cs 0) else none

/-- The value of an optional single sign followed by one or more decimal digits. -/
def readInteger? : List Char → Option Int
  | '-' :: cs => (readDigits? cs).map fun (n : Nat) => -(n : Int)
  | '+' :: cs => (readDigits? cs).map fun (n : Nat) => (n : Int)
  | cs => (readDigits? cs).map fun (n : Nat) => (n : Int)

end CellScript.Text
