/-
Module: CellScript.Diagnostic
Purpose: What is reported about a failed run: the stage, a message and the place it blames.
Main exports: Stage, Diagnostic, Diagnostic.text
-/
import CellScript.Token

namespace CellScript

/-- The part of a run that failed. -/
inductive Stage where
  | scan
  | parse
  | eval
deriving DecidableEq, Repr, Inhabited

namespace Stage

/-- All stages, in the order of a run. -/
def all : List Stage :=
  [scan, parse, eval]

/-- The name of a stage. -/
def name : Stage → String
  | scan => "scan"
  | parse => "parse"
  | eval => "eval"

/-- The stage with a given name. -/
def ofName? (s : String) : Option Stage :=
  all.find? fun stage => stage.name == s

end Stage

/-- A report. A token brings its own position; a position may also stand alone. -/
structure Diagnostic where
  stage : Stage
  message : String
  token : Option Token := none
  pos : Option Position := none
deriving DecidableEq, Repr, Inhabited

namespace Diagnostic

/-- A report that blames a token, and with it the token's cell. -/
def atToken (stage : Stage) (message : String) (token : Token) : Diagnostic :=
  { stage, message, token := some token, pos := some token.pos }

/-- A report that blames a cell. -/
def atPosition (stage : Stage) (message : String) (pos : Position) : Diagnostic :=
  { stage, message, pos := some pos }

/-- A report that blames a token if there is one. -/
def atToken? (stage : Stage) (message : String) : Option Token → Diagnostic
  | some token => atToken stage message token
  | none => { stage, message }

theorem pos_atToken? (stage : Stage) (message : String) (token? : Option Token) :
    (atToken? stage message token?).pos = token?.map Token.pos := by
  cases token? <;> rfl

/-- A report in one line. The token is preferred to the bare position. -/
def text (d : Diagnostic) : String :=
  let tag := "[" ++ d.stage.name ++ "] "
  match d.token, d.pos with
  | some token, _ => tag ++ "error at " ++ token.text ++ ": " ++ d.message
  | none, some pos => tag ++ "error at " ++ pos.text ++ ": " ++ d.message
  | none, none => tag ++ d.message

end Diagnostic

end CellScript
