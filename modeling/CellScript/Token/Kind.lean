/-
Module: CellScript.Token.Kind
Purpose: The kinds of tokens, their names and the classes the parser asks for.
Main exports: TokenKind, TokenKind.name, TokenKind.ofName?
-/

namespace CellScript

/-- What a cell of a program says. -/
inductive TokenKind where
  | plus
  | minus
  | mul
  | div
  | mod
  | pow
  | lpar
  | rpar
  | bitAnd
  | bitOr
  | bitXor
  | bitNot
  | shl
  | shr
  | zero
  | one
  | and
  | or
  | not
  | xor
  | eq
  | ne
  | gt
  | lt
  | ge
  | le
  | sin
  | cos
  | tan
  | asin
  | acos
  | atan
  | abs
  | ceil
  | floor
  | pi
  | expBase
  | command
  | stop
  | print
  | goto
  | placeBlock
  | ifElse
  | branchEnd
  | whileLoop
  | forLoop
  | breakLoop
  | continueLoop
  | firstArgument
  | secondArgument
  | thirdArgument
  | fourthArgument
  | int
  | float
  | string
  | bool
  | varIndex
  | useVar
deriving DecidableEq, Repr, Inhabited

namespace TokenKind

/-- Every kind, once. -/
def all : List TokenKind :=
  [plus, minus, mul, div, mod, pow, lpar, rpar, bitAnd, bitOr, bitXor, bitNot, shl, shr, zero,
   one, and, or, not, xor, eq, ne, gt, lt, ge, le, sin, cos, tan, asin, acos, atan, abs, ceil,
   floor, pi, expBase, command, stop, print, goto, placeBlock, ifElse, branchEnd, whileLoop,
   forLoop, breakLoop, continueLoop, firstArgument, secondArgument, thirdArgument,
   fourthArgument, int, float, string, bool, varIndex, useVar]

/-- The name of a kind, as messages and documents spell it. -/
def name : TokenKind → String
  | plus => "PLUS"
  | minus => "MINUS"
  | mul => "MUL"
  | div => "DIV"
  | mod => "MOD"
  | pow => "POW"
  | lpar => "LPAR"
  | rpar => "RPAR"
  | bitAnd => "BIT_AND"
  | bitOr => "BIT_OR"
  | bitXor => "BIT_XOR"
  | bitNot => "BIT_NOT"
  | shl => "SHL"
  | shr => "SHR"
  | zero => "ZERO"
  | one => "ONE"
  | and => "AND"
  | or => "OR"
  | not => "NOT"
  | xor => "XOR"
  | eq => "EQ"
  | ne => "NE"
  | gt => "GT"
  | lt => "LT"
  | ge => "GE"
  | le => "LE"
  | sin => "SIN"
  | cos => "COS"
  | tan => "TAN"
  | asin => "ASIN"
  | acos => "ACOS"
  | atan => "ATAN"
  | abs => "ABS"
  | ceil => "CEIL"
  | floor => "FLOOR"
  | pi => "PI"
  | expBase => "E"
  | command => "COMMAND"
  | stop => "STOP"
  | print => "PRINT"
  | goto => "GOTO"
  | placeBlock => "PLACEBLOCK"
  | ifElse => "IF"
  | branchEnd => "BRANCH_END"
  | whileLoop => "WHILE"
  | forLoop => "FOR"
  | breakLoop => "BREAK"
  | continueLoop => "CONTINUE"
  | firstArgument => "FIRST_ARGUMENT"
  | secondArgument => "SECOND_ARGUMENT"
  | thirdArgument => "THIRD_ARGUMENT"
  | fourthArgument => "FOURTH_ARGUMENT"
  | int => "INT"
  | float => "FLOAT"
  | string => "STRING"
  | bool => "BOOL"
  | varIndex => "VAR_INDEX"
  | useVar => "USE_VAR"

/-- The kind with a given name. -/
def ofName? (s : String) : Option TokenKind :=
  all.find? fun kind => kind.name == s

/-- Whether a kind is a bit of a literal. -/
def isBit : TokenKind → Bool
  | zero | one => true
  | _ => false

/-- Whether a kind names a value type. -/
def isTypeMarker : TokenKind → Bool
  | int | float | string | bool => true
  | _ => false

/-- Whether a kind opens an argument slot. -/
def isArgument : TokenKind → Bool
  | firstArgument | secondArgument | thirdArgument | fourthArgument => true
  | _ => false

/-- Whether the scanner looks to the sides of a token of this kind. -/
def startsSideScan : TokenKind → Bool
  | int | float | string | bool | useVar | ifElse | whileLoop | forLoop | print | goto
  | placeBlock => true
  | _ => false

end TokenKind

end CellScript
