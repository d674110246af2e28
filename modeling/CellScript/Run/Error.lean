/-
Module: CellScript.Run.Error
Purpose: Why a program ends before its time.
Main exports: EvalError
-/
import CellScript.Diagnostic
import CellScript.Value.Operation

namespace CellScript

/-- Why a program cannot go on. All but the last blame a token. -/
inductive EvalError where
  | typeMismatch (token : Token) (mismatch : Mismatch)
  | undefinedVariable (token : Token) (index : Nat)
  | divisionByZero (token : Token)
  | conversion (token : Token) (source target : ValueType) (text : String)
  | stringTooLong (token : Token) (length limit : Nat)
  | invalidLiteral (token : Token) (fault : LiteralFault)
  | missingCommandHook (token : Token)
  | commandFailed (token : Token) (message : String)
  | gotoOutOfBounds (token : Token) (target : Int32) (length : Nat)
  | gotoDisabled (token : Token)
  | strayControl (token : Token)
  | gasExhausted (limit : Nat)
deriving DecidableEq, Repr

namespace EvalError

/-- The token that an error blames. -/
def token? : EvalError → Option Token
  | typeMismatch token _ => some token
  | undefinedVariable token _ => some token
  | divisionByZero token => some token
  | conversion token _ _ _ => some token
  | stringTooLong token _ _ => some token
  | invalidLiteral token _ => some token
  | missingCommandHook token => some token
  | commandFailed token _ => some token
  | gotoOutOfBounds token _ _ => some token
  | gotoDisabled token => some token
  | strayControl token => some token
  | gasExhausted _ => none

/-- The error in one line. -/
def text : EvalError → String
  | typeMismatch token mismatch => "error at " ++ token.text ++ ": " ++ mismatch.message
  | undefinedVariable token index =>
      "error at " ++ token.text ++ ": variable " ++ index.repr ++ " is not defined"
  | divisionByZero token => "error at " ++ token.text ++ ": division by zero"
  | conversion token source target text =>
      "error at " ++ token.text ++ ": cannot convert " ++ source.name ++ " \"" ++ text ++ "\" to "
        ++ target.name
  | stringTooLong token length limit =>
      "error at " ++ token.text ++ ": string of " ++ length.repr ++ " bytes exceeds the limit of "
        ++ limit.repr
  | invalidLiteral token fault => "error at " ++ token.text ++ ": " ++ fault.message
  | missingCommandHook token => "error at " ++ token.text ++ ": no command hook at this cell"
  | commandFailed token message => "error at " ++ token.text ++ ": command failed: " ++ message
  | gotoOutOfBounds token target length =>
      "error at " ++ token.text ++ ": GOTO target " ++ Text.integerText target.toInt
        ++ " is outside 0.." ++ length.repr
  | gotoDisabled token => "error at " ++ token.text ++ ": GOTO is disabled"
  | strayControl token => "error at " ++ token.text ++ ": " ++ token.kind.name ++ " outside a loop"
  | gasExhausted limit => "gas exhausted after " ++ limit.repr ++ " steps"

/-- What went wrong, without the place: the text less its start, which tells the token. -/
def message (e : EvalError) : String :=
  match e.token? with
  | some token => (e.text.dropPrefix ("error at " ++ token.text ++ ": ")).copy
  | none => e.text

/-- The error as a report. -/
def diagnostic (e : EvalError) : Diagnostic :=
  .atToken? .eval e.message e.token?

/-- The error of an operator that stands at a token. -/
def ofOperation (token : Token) : OperationFault → EvalError
  | .mismatch m => typeMismatch token m
  | .divisionByZero => divisionByZero token
  | .stringTooLong length limit => stringTooLong token length limit

end EvalError

end CellScript
