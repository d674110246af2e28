/-
Module: CellScript.Program.Error
Purpose: Why a list of tokens is no program.
Main exports: Expectation, ParseError
-/
import CellScript.Diagnostic
import CellScript.Value.Type

namespace CellScript

/-- What the grammar needs at some point. An expectation may also be given in words. -/
inductive Expectation where
  | statement
  | value
  | operator
  | typeMarker
  | kind (k : TokenKind)
  | words (name : String)
deriving DecidableEq, Repr

/-- The expectation in words. -/
def Expectation.name : Expectation → String
  | statement => "statement"
  | value => "value"
  | operator => "operator"
  | typeMarker => "type marker"
  | kind k => k.name
  | words name => name

/-- Why a list of tokens is no program.

* `expected`: something else is needed where `found` stands.
* `unexpectedToken`: the token cannot start a statement.
* `missingArgument`: the statement that `token` starts lacks a slot.
* `duplicateArgument`: the marker opens a slot that is already filled. -/
inductive ParseError where
  | expected (what : Expectation) (found : Token)
  | unexpectedToken (token : Token)
  | unexpectedEnd (what : Expectation)
  | missingArgument (token : Token) (slot : TokenKind)
  | duplicateArgument (marker : Token)
  | malformedLiteral (token : Token) (fault : LiteralFault)
  | nestingTooDeep (token : Token) (limit : Nat)
deriving DecidableEq, Repr

namespace ParseError

/-- The token that an error blames; there is none at the end of the input. -/
def token? : ParseError → Option Token
  | expected _ token => some token
  | unexpectedToken token => some token
  | unexpectedEnd _ => none
  | missingArgument token _ => some token
  | duplicateArgument token => some token
  | malformedLiteral token _ => some token
  | nestingTooDeep token _ => some token

/-- The error in one line. -/
def text : ParseError → String
  | expected what found =>
      "error at " ++ found.text ++ ": expected " ++ what.name ++ ", found " ++ found.kind.name
  | unexpectedToken token =>
      "error at " ++ token.text ++ ": " ++ token.kind.name ++ " cannot start a statement"
  | unexpectedEnd what => "unexpected end of input: expected " ++ what.name
  | missingArgument token slot =>
      "error at " ++ token.text ++ ": " ++ token.kind.name ++ " requires " ++ slot.name
  | duplicateArgument marker =>
      "error at " ++ marker.text ++ ": " ++ marker.kind.name ++ " given twice"
  | malformedLiteral token fault => "error at " ++ token.text ++ ": " ++ fault.message
  | nestingTooDeep token limit =>
      "error at " ++ token.text ++ ": nesting deeper than " ++ limit.repr

/-- What went wrong, without the place. -/
def message : ParseError → String
  | expected what found => "expected " ++ what.name ++ ", found " ++ found.kind.name
  | unexpectedToken token => token.kind.name ++ " cannot start a statement"
  | unexpectedEnd what => "unexpected end of input: expected " ++ what.name
  | missingArgument token slot => token.kind.name ++ " requires " ++ slot.name
  | duplicateArgument marker => marker.kind.name ++ " given twice"
  | malformedLiteral _ fault => fault.message
  | nestingTooDeep _ limit => "nesting deeper than " ++ limit.repr

/-- The error as a report. -/
def diagnostic (e : ParseError) : Diagnostic :=
  .atToken? .parse e.message e.token?

end ParseError

end CellScript
