/-
Module: CellScript.Value
Purpose: Values, their text, and conversion between types.
Main exports: Value, Value.text, Value.coerce?, Value.looselyEqual
-/
import CellScript.Number.Decimal
import CellScript.Value.Type

namespace CellScript

/-- A value of one of the four types. -/
inductive Value where
  | int (n : Int32)
  | float (x : Single)
  | bool (b : Bool)
  | string (s : String)
deriving DecidableEq, Repr, Inhabited

namespace Value

/-- The type of a value. -/
def type : Value → ValueType
  | int _ => .int
  | float _ => .float
  | bool _ => .bool
  | string _ => .string

/-- Whether a value is a number. -/
def isNumber : Value → Bool
  | int _ | float _ => true
  | _ => false

/-- The truth value that a value is. -/
def bool? : Value → Option Bool
  | bool b => some b
  | _ => none

/-- The integer that a value is. -/
def int? : Value → Option Int32
  | int n => some n
  | _ => none

/-- A number in single precision. -/
def single? : Value → Option Single
  | int n => some (.ofInt n.toInt)
  | float x => some x
  | _ => none

/-- The canonical text of a value. -/
def text : Value → String
  | int n => Text.integerText n.toInt
  | float x => x.text
  | bool b => if b then "true" else "false"
  | string s => s

/-- The integer that a text stands for, if it fits 32 bits. Blanks are not accepted. -/
def readInt? (s : String) : Option Int32 :=
  match Text.readInteger? s.toList with
  | some n =>
      if Int32.minValue.toInt ≤ n ∧ n ≤ Int32.maxValue.toInt then some (.ofInt n) else none
  | none => none

/-- A value as an integer. -/
def toInt? : Value → Option Int32
  | int n => some n
  | float x => some x.toInt32
  | bool b => some (if b then 1 else 0)
  | string s => readInt? s

/-- A value as a number in single precision. Blanks around a text are ignored. -/
def toFloat? : Value → Option Single
  | int n => some (.ofInt n.toInt)
  | float x => some x
  | bool b => some (if b then .one else .zero)
  | string s => Single.ofText? (Text.trim s.toList)

/-- A value as a truth value: everything but zero and the empty text is true. -/
def toBool : Value → Bool
  | int n => n != 0
  | float x => !x.isZero
  | bool b => b
  | string s => !s.isEmpty

/-- The value converted to a type. Only a text that is no number cannot be converted. -/
def coerce? (v : Value) : ValueType → Option Value
  | .int => v.toInt?.map int
  | .float => v.toFloat?.map float
  | .bool => some (bool v.toBool)
  | .string => some (string v.text)

/-- Numbers nearer than this are equal to an expression. -/
def tolerance : Single := ⟨0x358637BD⟩

/-- Equality of type and value, where numbers in single precision may differ a little. -/
def looselyEqual : Value → Value → Bool
  | int a, int b => a == b
  | float a, float b => a.eq b || (a.sub b).abs.lt tolerance
  | bool a, bool b => a == b
  | string a, string b => a == b
  | _, _ => false

end Value

end CellScript
