/-
Module: CellScript.Program
Purpose: Programs as trees. Every node keeps the token it was read from.
Main exports: Expr, Stmt, Program
-/
import CellScript.Program.Operator
import CellScript.Space.Grid
import CellScript.Token
import CellScript.Value.Type

namespace CellScript

/-- An expression. The bits of a literal are in reading order. A variable is known only by the
length of its chain of index tokens. -/
inductive Expr where
  | literal (type : ValueType) (token : Token) (bits : List Token)
  | var (token : Token) (chain : List Token)
  | constant (value : Constant) (token : Token)
  | unary (op : UnaryOp) (token : Token) (operand : Expr)
  | binary (op : BinaryOp) (token : Token) (left right : Expr)
deriving DecidableEq, Repr, Inhabited

namespace Expr

/-- The token that an error in the expression blames. -/
def token : Expr → Token
  | literal _ token _ => token
  | var token _ => token
  | constant _ token => token
  | unary _ token _ => token
  | binary _ token _ _ => token

end Expr

/-- A statement. A block is a list of statements with a scope of its own.

* `assign` converts a value to the type of its marker and stores it in the variable that the chain
  names.
* `place` writes its template, a symbol read from the grid at `templatePos`, to a computed cell.
* `forLoop` runs `init` once, and `increment` after each round. -/
inductive Stmt where
  | assign (type : ValueType) (token : Token) (chain : List Token) (value : Expr)
  | command (token : Token)
  | stop (token : Token)
  | breakLoop (token : Token)
  | continueLoop (token : Token)
  | print (token : Token) (value : Expr)
  | goto (token : Token) (target : Expr)
  | place (token : Token) (x y z : Expr) (templatePos : Position) (template : Symbol)
  | ifElse (token : Token) (condition : Expr) (yes : List Stmt) (no : Option (List Stmt))
  | whileLoop (token : Token) (condition : Expr) (body : List Stmt)
  | forLoop (token : Token) (init : Stmt) (condition : Expr) (increment : Stmt)
      (body : List Stmt)
deriving Repr, Inhabited

namespace Stmt

/-- The token that starts the statement. -/
def token : Stmt → Token
  | assign _ token _ _ => token
  | command token => token
  | stop token => token
  | breakLoop token => token
  | continueLoop token => token
  | print token _ => token
  | goto token _ => token
  | place token _ _ _ _ _ => token
  | ifElse token _ _ _ => token
  | whileLoop token _ _ => token
  | forLoop token _ _ _ _ => token

end Stmt

/-- A program is its root block. -/
structure Program where
  body : List Stmt
deriving Repr, Inhabited

end CellScript
