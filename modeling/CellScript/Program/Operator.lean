/-
Module: CellScript.Program.Operator
Purpose: The operators of expressions and the tokens that stand for them.
Main exports: BinaryOp, UnaryOp, Constant
-/
import CellScript.Token.Kind

namespace CellScript

/-- An operator between two operands. -/
inductive BinaryOp where
  | add
  | sub
  | mul
  | div
  | mod
  | pow
  | bitAnd
  | bitOr
  | bitXor
  | shl
  | shr
  | and
  | or
  | xor
  | eq
  | ne
  | gt
  | lt
  | ge
  | le
deriving DecidableEq, Repr, Inhabited

namespace BinaryOp

/-- The token of an operator. -/
def kind : BinaryOp → TokenKind
  | add => .plus
  | sub => .minus
  | mul => .mul
  | div => .div
  | mod => .mod
  | pow => .pow
  | bitAnd => .bitAnd
  | bitOr => .bitOr
  | bitXor => .bitXor
  | shl => .shl
  | shr => .shr
  | and => .and
  | or => .or
  | xor => .xor
  | eq => .eq
  | ne => .ne
  | gt => .gt
  | lt => .lt
  | ge => .ge
  | le => .le

/-- The name of an operator. -/
def name (op : BinaryOp) : String :=
  op.kind.name

/-- The operator of the looser level that a token stands for. -/
def additive? : TokenKind → Option BinaryOp
  | .plus => some add
  | .minus => some sub
  | .and => some and
  | .or => some or
  | .xor => some xor
  | .eq => some eq
  | .ne => some ne
  | .gt => some gt
  | .lt => some lt
  | .ge => some ge
  | .le => some le
  | _ => none

/-- The operator of the tighter level that a token stands for. -/
def multiplicative? : TokenKind → Option BinaryOp
  | .mul => some mul
  | .div => some div
  | .mod => some mod
  | .pow => some pow
  | .bitAnd => some bitAnd
  | .bitOr => some bitOr
  | .bitXor => some bitXor
  | .shl => some shl
  | .shr => some shr
  | _ => none

end BinaryOp

/-- An operator before one operand. -/
inductive UnaryOp where
  | plus
  | neg
  | bitNot
  | not
  | sin
  | cos
  | tan
  | asin
  | acos
  | atan
  | abs
  | ceil
  | floor
deriving DecidableEq, Repr, Inhabited

namespace UnaryOp

/-- The token of an operator. -/
def kind : UnaryOp → TokenKind
  | plus => .plus
  | neg => .minus
  | bitNot => .bitNot
  | not => .not
  | sin => .sin
  | cos => .cos
  | tan => .tan
  | asin => .asin
  | acos => .acos
  | atan => .atan
  | abs => .abs
  | ceil => .ceil
  | floor => .floor

/-- The name of an operator. -/
def name (op : UnaryOp) : String :=
  op.kind.name

/-- The operator that a token stands for before an operand. -/
def ofKind? : TokenKind → Option UnaryOp
  | .plus => some plus
  | .minus => some neg
  | .bitNot => some bitNot
  | .not => some not
  | .sin => some sin
  | .cos => some cos
  | .tan => some tan
  | .asin => some asin
  | .acos => some acos
  | .atan => some atan
  | .abs => some abs
  | .ceil => some ceil
  | .floor => some floor
  | _ => none

end UnaryOp

/-- A named number. -/
inductive Constant where
  | pi
  | expBase
deriving DecidableEq, Repr, Inhabited

/-- The token of a constant. -/
def Constant.kind : Constant → TokenKind
  | pi => .pi
  | expBase => .expBase

/-- The name of a constant. -/
def Constant.name (c : Constant) : String :=
  c.kind.name

end CellScript
