/-
Module: CellScript.Value.Operation
Purpose: What operators do to values, and why they fail.
Main exports: Mismatch, OperationFault, BinaryOp.apply, UnaryOp.apply
-/
import CellScript.Number.Elementary
import CellScript.Program.Operator
import CellScript.Value

namespace CellScript

/-- What a binary operator asks of its operands. -/
inductive Operands where
  | numbersOrText
  | numbers
  | ints
  | bools
deriving DecidableEq, Repr

/-- The demand in words. -/
def Operands.name : Operands → String
  | numbersOrText => "numbers or a STRING"
  | numbers => "numbers"
  | ints => "INT"
  | bools => "BOOL"

/-- Where a statement needs an integer. -/
inductive IntRole where
  | gotoTarget
  | placeCoordinate
deriving DecidableEq, Repr

/-- The role in words. -/
def IntRole.name : IntRole → String
  | gotoTarget => "GOTO target"
  | placeCoordinate => "PLACEBLOCK coordinate"

/-- A value of the wrong type, and who asked for another. This may also be given in words. -/
inductive Mismatch where
  | binary (op : BinaryOp) (wanted : Operands) (left right : ValueType)
  | unary (op : UnaryOp) (got : ValueType)
  | condition (statement : TokenKind) (got : ValueType)
  | integer (role : IntRole) (got : ValueType)
  | words (message : String)
deriving DecidableEq, Repr

/-- The mismatch in words. -/
def Mismatch.message : Mismatch → String
  | binary op wanted left right =>
      op.name ++ " expects " ++ wanted.name ++ ", got " ++ left.name ++ " and " ++ right.name
  | unary op got => op.name ++ " does not accept " ++ got.name
  | condition statement got => statement.name ++ " condition must be BOOL, got " ++ got.name
  | integer role got => role.name ++ " must be INT, got " ++ got.name
  | words message => message

/-- Why an operator has no result. -/
inductive OperationFault where
  | mismatch (m : Mismatch)
  | divisionByZero
  | stringTooLong (length limit : Nat)
deriving DecidableEq, Repr

/-- A text `n` times in a row. -/
def repeatText (s : String) (n : Nat) : String :=
  if s.isEmpty then "" else String.join (List.replicate n s)

/-- A length as it is counted: in a word, where the greatest one stands for all that are longer. -/
def countedLength (n : Nat) : Nat :=
  Nat.min n (UInt64.size - 1)

namespace BinaryOp

/-- The fault of an operator whose operands are not as it needs them. -/
def mismatch (op : BinaryOp) (wanted : Operands) (l r : Value) : OperationFault :=
  .mismatch (.binary op wanted l.type r.type)

/-- Apply an operator on single precision numbers to any two numbers. -/
def onNumbers (op : BinaryOp) (f : Single → Single → Except OperationFault Value)
    (l r : Value) : Except OperationFault Value :=
  match l.single?, r.single? with
  | some a, some b => f a b
  | _, _ => .error (op.mismatch .numbers l r)

/-- Two integers give an integer; any other two numbers are taken in single precision. -/
def arithmetic (op : BinaryOp) (onInts : Int32 → Int32 → Int32)
    (onSingles : Single → Single → Single) (l r : Value) : Except OperationFault Value :=
  match l, r with
  | .int a, .int b => .ok (.int (onInts a b))
  | _, _ => op.onNumbers (fun a b => .ok (.float (onSingles a b))) l r

/-- Apply an operator to two integers only. -/
def onInts (op : BinaryOp) (f : Int32 → Int32 → Int32) (l r : Value) :
    Except OperationFault Value :=
  match l, r with
  | .int a, .int b => .ok (.int (f a b))
  | _, _ => .error (op.mismatch .ints l r)

/-- Apply an operator to two truth values only. -/
def onBools (op : BinaryOp) (f : Bool → Bool → Bool) (l r : Value) :
    Except OperationFault Value :=
  match l, r with
  | .bool a, .bool b => .ok (.bool (f a b))
  | _, _ => .error (op.mismatch .bools l r)

/-- Compare two numbers in single precision, integers too. -/
def comparison (op : BinaryOp) (f : Single → Single → Bool) (l r : Value) :
    Except OperationFault Value :=
  op.onNumbers (fun a b => .ok (.bool (f a b))) l r

/-- The joined texts of two values, if they are not too long together. -/
def concat (limit : Nat) (l r : Value) : Except OperationFault Value :=
  let length := countedLength (l.text.utf8ByteSize + r.text.utf8ByteSize)
  if limit < length then .error (.stringTooLong length limit) else .ok (.string (l.text ++ r.text))

/-- A text repeated as often as an integer says, never for a negative one, if that is not too
long. -/
def repetition (limit : Nat) (s : String) (n : Int32) : Except OperationFault Value :=
  let count := n.toInt.toNat
  let length := countedLength (s.utf8ByteSize * count)
  if limit < length then
    .error (.stringTooLong length limit)
  else
    .ok (.string (repeatText s count))

/-- Add numbers, or join texts where at least one operand is a text. -/
def sum (limit : Nat) (l r : Value) : Except OperationFault Value :=
  if l.isNumber && r.isNumber then
    add.arithmetic (· + ·) Single.add l r
  else
    match l, r with
    | .string _, _ | _, .string _ => concat limit l r
    | _, _ => .error (add.mismatch .numbersOrText l r)

/-- Multiply numbers, or repeat a text. -/
def product (limit : Nat) (l r : Value) : Except OperationFault Value :=
  match l, r with
  | .string s, .int n => repetition limit s n
  | _, _ => mul.arithmetic (· * ·) Single.mul l r

/-- Divide in single precision. -/
def quotient (l r : Value) : Except OperationFault Value :=
  div.onNumbers
    (fun a b => if b.isZero then .error .divisionByZero else .ok (.float (a.div b))) l r

/-- The remainder of division toward zero. -/
def remainder (l r : Value) : Except OperationFault Value :=
  match l, r with
  | .int a, .int b => if b = 0 then .error .divisionByZero else .ok (.int (a % b))
  | _, _ =>
      mod.onNumbers
        (fun a b => if b.isZero then .error .divisionByZero else .ok (.float (a.rem b))) l r

/-- Apply an operator to two values. Texts it builds have at most `limit` bytes. -/
def apply (limit : Nat) (op : BinaryOp) (l r : Value) : Except OperationFault Value :=
  match op with
  | add => sum limit l r
  | sub => sub.arithmetic (· - ·) Single.sub l r
  | mul => product limit l r
  | div => quotient l r
  | mod => remainder l r
  | pow => pow.onNumbers (fun a b => .ok (.float (a.pow b))) l r
  | bitAnd => bitAnd.onInts (· &&& ·) l r
  | bitOr => bitOr.onInts (· ||| ·) l r
  | bitXor => bitXor.onInts (· ^^^ ·) l r
  | shl => shl.onInts (· <<< ·) l r
  | shr => shr.onInts (· >>> ·) l r
  | and => and.onBools (· && ·) l r
  | or => or.onBools (· || ·) l r
  | xor => xor.onBools (· != ·) l r
  | eq => .ok (.bool (l.looselyEqual r))
  | ne => .ok (.bool (!l.looselyEqual r))
  | gt => gt.comparison (fun a b => b.lt a) l r
  | lt => lt.comparison (fun a b => a.lt b) l r
  | ge => ge.comparison (fun a b => b.le a) l r
  | le => le.comparison (fun a b => a.le b) l r

end BinaryOp

namespace UnaryOp

/-- The function in single precision behind an operator that always gives a FLOAT. -/
def function? : UnaryOp → Option (Single → Single)
  | sin => some Single.sin
  | cos => some Single.cos
  | tan => some Single.tan
  | asin => some Single.asin
  | acos => some Single.acos
  | atan => some Single.atan
  | ceil => some Single.ceil
  | floor => some Single.floor
  | _ => none

/-- Apply an operator to a value. -/
def apply (op : UnaryOp) (v : Value) : Except OperationFault Value :=
  match op, v with
  | plus, .int n => .ok (.int n)
  | plus, .float x => .ok (.float x)
  | neg, .int n => .ok (.int (-n))
  | neg, .float x => .ok (.float x.neg)
  | abs, .int n => .ok (.int n.abs)
  | abs, .float x => .ok (.float x.abs)
  | bitNot, .int n => .ok (.int (~~~n))
  | not, .bool b => .ok (.bool (!b))
  | op, v =>
      match op.function?, v.single? with
      | some f, some x => .ok (.float (f x))
      | _, _ => .error (.mismatch (.unary op v.type))

end UnaryOp

end CellScript
