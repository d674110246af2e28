/-
Module: CellScript.Run.Eval
Purpose: The value of an expression, and the gas that finding it takes.
Main exports: Settings, metered, Expr.eval
-/
import CellScript.Program
import CellScript.Run.Error
import CellScript.Run.Scopes
import CellScript.Value.Literal

namespace CellScript

/-- The limits of a run: the gas it may use, the bytes of a text that it may build, and whether
`GOTO` may jump. -/
structure Settings where
  gasLimit : Nat := 1000000
  maxStringLength : Nat := 1048576
  gotoEnabled : Bool := false
deriving DecidableEq, Repr, Inhabited

/-- Use one unit of gas, and go on if the limit allows it. -/
def metered {α : Type} (limit gas : Nat) (next : Nat → Except EvalError α × Nat) :
    Except EvalError α × Nat :=
  if limit < gas + 1 then (.error (.gasExhausted limit), gas + 1) else next (gas + 1)

/-- The bits that tokens stand for. -/
def bitsOfTokens : List Token → Except LiteralFault (List Bool)
  | [] => .ok []
  | t :: rest =>
      match t.kind with
      | .zero => (bitsOfTokens rest).map (false :: ·)
      | .one => (bitsOfTokens rest).map (true :: ·)
      | kind => .error (.notABit kind)

/-- The value of a literal. -/
def literalValue (type : ValueType) (token : Token) (bits : List Token) :
    Except EvalError Value :=
  ((bitsOfTokens bits).bind (Value.ofBits? type)).mapError (.invalidLiteral token)

/-- The value of a constant. -/
def Constant.value : Constant → Value
  | pi => .float .pi
  | expBase => .float .expBase

/-- The value of a variable. -/
def variableValue (vars : Scopes) (token : Token) (chain : List Token) : Except EvalError Value :=
  match vars.get? chain.length with
  | some v => .ok v
  | none => .error (.undefinedVariable token chain.length)

/-- The value of an expression and the gas used so far. Each node takes one unit before its
operands, and both operands of an operator are evaluated. -/
def Expr.eval (s : Settings) (vars : Scopes) : Expr → Nat → Except EvalError Value × Nat
  | .literal type token bits, gas =>
      metered s.gasLimit gas fun gas => (literalValue type token bits, gas)
  | .var token chain, gas =>
      metered s.gasLimit gas fun gas => (variableValue vars token chain, gas)
  | .constant c _, gas =>
      metered s.gasLimit gas fun gas => (.ok c.value, gas)
  | .unary op token operand, gas =>
      metered s.gasLimit gas fun gas =>
        match operand.eval s vars gas with
        | (.error e, gas) => (.error e, gas)
        | (.ok v, gas) => ((op.apply v).mapError (.ofOperation token), gas)
  | .binary op token left right, gas =>
      metered s.gasLimit gas fun gas =>
        match left.eval s vars gas with
        | (.error e, gas) => (.error e, gas)
        | (.ok l, gas) =>
            match right.eval s vars gas with
            | (.error e, gas) => (.error e, gas)
            | (.ok r, gas) =>
                ((op.apply s.maxStringLength l r).mapError (.ofOperation token), gas)

end CellScript
