/-
Module: CellScript.Value.Type
Purpose: The four types of values, and how many bits a literal of each may have.
Main exports: ValueType, LiteralFault, ValueType.checkWidth
-/
import CellScript.Token.Kind

namespace CellScript

/-- The type of a value. -/
inductive ValueType where
  | int
  | float
  | string
  | bool
deriving DecidableEq, Repr, Inhabited

namespace ValueType

/-- All value types. -/
def all : List ValueType :=
  [int, float, string, bool]

/-- The name of a type. -/
def name : ValueType → String
  | int => "INT"
  | float => "FLOAT"
  | string => "STRING"
  | bool => "BOOL"

/-- The type with a given name. -/
def ofName? (s : String) : Option ValueType :=
  all.find? fun type => type.name == s

/-- The type that a marker names. -/
def ofKind? : TokenKind → Option ValueType
  | .int => some int
  | .float => some float
  | .string => some string
  | .bool => some bool
  | _ => none

/-- The marker of a type. -/
def marker : ValueType → TokenKind
  | int => .int
  | float => .float
  | string => .string
  | bool => .bool

end ValueType

/-- Why a sequence of bits is no literal. The reason may also be given in words. -/
inductive LiteralFault where
  | noBits (type : ValueType)
  | floatWidth (width : Nat)
  | stringWidth (width : Nat)
  | tooWide (type : ValueType) (width : Nat)
  | notABit (kind : TokenKind)
  | words (reason : String)
deriving DecidableEq, Repr

/-- The fault in words. -/
def LiteralFault.message : LiteralFault → String
  | noBits type => type.name ++ " literal has no bits"
  | floatWidth width => "FLOAT literal must have exactly 32 bits, got " ++ width.repr
  | stringWidth width =>
      "STRING literal bit length must be a multiple of 8, got " ++ width.repr
  | tooWide type width => type.name ++ " literal must have at most 64 bits, got " ++ width.repr
  | notABit kind => kind.name ++ " is not a bit"
  | words reason => reason

/-- Whether a literal of a type may have so many bits. -/
def ValueType.checkWidth (type : ValueType) (width : Nat) : Except LiteralFault Unit :=
  if width = 0 then
    .error (.noBits type)
  else
    match type with
    | .float => if width = 32 then .ok () else .error (.floatWidth width)
    | .string => if width % 8 = 0 then .ok () else .error (.stringWidth width)
    | .int | .bool => if width ≤ 64 then .ok () else .error (.tooWide type width)

end CellScript
