/-
Module: CellScript.Json.Document
Purpose: The JSON form of symbols, directions, tokens, diagnostics and run configurations.
Main exports:
  Position.fields, Token.fields, Diagnostic.fields, RunConfig.fields,
  Position.toJson, Position.ofJson?, and the same for Symbol, Direction, TokenKind, Token, Stage,
  ValueType, Diagnostic and RunConfig
-/
import CellScript.Json.Field
import CellScript.Json.Reader
import CellScript.Pipeline

namespace CellScript

/-- A symbol is its name. -/
def Symbol.toJson (s : Symbol) : Json :=
  .ofText s.name

/-- A symbol from its name. -/
def Symbol.ofJson? (j : Json) : Option Symbol :=
  j.text?.map Symbol.mk

/-- A direction is its name. -/
def Direction.toJson (d : Direction) : Json :=
  .ofText d.name

/-- A direction from its name. -/
def Direction.ofJson? (j : Json) : Option Direction :=
  j.name?.bind ofName?

/-- A kind of token is its name. -/
def TokenKind.toJson (k : TokenKind) : Json :=
  .ofText k.name

/-- A kind of token from its name. -/
def TokenKind.ofJson? (j : Json) : Option TokenKind :=
  j.name?.bind ofName?

/-- A stage is its name. -/
def Stage.toJson (s : Stage) : Json :=
  .ofText s.name

/-- A stage from its name. -/
def Stage.ofJson? (j : Json) : Option Stage :=
  j.name?.bind ofName?

/-- A value type is its name. -/
def ValueType.toJson (t : ValueType) : Json :=
  .ofText t.name

/-- A value type from its name. -/
def ValueType.ofJson? (j : Json) : Option ValueType :=
  j.name?.bind ofName?

/-- A position has three coordinates. -/
def Position.fields (p : Position) : List (String × Json) :=
  [("x", .ofInt p.x.toInt), ("y", .ofInt p.y.toInt), ("z", .ofInt p.z.toInt)]

/-- A position is written by its fields. -/
def Position.toJson (p : Position) : Json :=
  .ofFields p.fields

/-- A position from its coordinates. -/
def Position.ofJson? (j : Json) : Option Position :=
  match j.fields? ["x", "y", "z"] false with
  | some [x, y, z] => do
      let x ← Json.required? Json.int32? x
      let y ← Json.required? Json.int32? y
      let z ← Json.required? Json.int32? z
      return ⟨x, y, z⟩
  | _ => none

/-- A token has a kind and a position. -/
def Token.fields (t : Token) : List (String × Json) :=
  [("kind", t.kind.toJson), ("pos", t.pos.toJson)]

/-- A token is written by its fields. -/
def Token.toJson (t : Token) : Json :=
  .ofFields t.fields

/-- A token from its kind and position. -/
def Token.ofJson? (j : Json) : Option Token :=
  match j.fields? ["kind", "pos"] false with
  | some [kind, pos] => do
      let kind ← Json.required? TokenKind.ofJson? kind
      let pos ← Json.required? Position.ofJson? pos
      return ⟨kind, pos⟩
  | _ => none

/-- A field that is written only if it has a value. -/
def Json.optionalField (name : String) : Option Json → List (String × Json)
  | some j => [(name, j)]
  | none => []

/-- A diagnostic leaves out the token and the position it does not have. -/
def Diagnostic.fields (d : Diagnostic) : List (String × Json) :=
  [("stage", d.stage.toJson), ("message", .ofText d.message)]
    ++ Json.optionalField "token" (d.token.map Token.toJson)
    ++ Json.optionalField "pos" (d.pos.map Position.toJson)

/-- A diagnostic is written by its fields. -/
def Diagnostic.toJson (d : Diagnostic) : Json :=
  .ofFields d.fields

/-- A diagnostic; its token and position may also be null. -/
def Diagnostic.ofJson? (j : Json) : Option Diagnostic :=
  match j.fields? ["stage", "message", "token", "pos"] false with
  | some [stage, message, token, pos] => do
      let stage ← Json.required? Stage.ofJson? stage
      let message ← Json.required? Json.text? message
      let token ← Json.optional? Token.ofJson? token
      let pos ← Json.optional? Position.ofJson? pos
      return { stage, message, token, pos }
  | _ => none

/-- The names of the settings of a run. -/
def RunConfig.fieldNames : List String :=
  ["max_scan_depth", "gas_limit", "max_string_len", "goto_enabled", "error_prefix"]

/-- A configuration has all its settings. -/
def RunConfig.fields (c : RunConfig) : List (String × Json) :=
  RunConfig.fieldNames.zip
    [.ofNat c.maxScanDepth.toNat, .ofNat c.gasLimit.toNat, .ofNat c.maxStringLength.toNat,
     .bool c.gotoEnabled, .ofText c.errorLabel]

/-- A configuration is written by its fields. -/
def RunConfig.toJson (c : RunConfig) : Json :=
  .ofFields c.fields

/-- A configuration. A field that is left out has its default. -/
def RunConfig.ofJson? (j : Json) : Option RunConfig :=
  let default : RunConfig := {}
  match j.fields? RunConfig.fieldNames true with
  | some [maxScanDepth, gasLimit, maxStringLength, gotoEnabled, errorLabel] => do
      let maxScanDepth ← Json.withDefault? Json.word? default.maxScanDepth maxScanDepth
      let gasLimit ← Json.withDefault? Json.word? default.gasLimit gasLimit
      let maxStringLength ← Json.withDefault? Json.word? default.maxStringLength maxStringLength
      let gotoEnabled ← Json.withDefault? Json.bool? default.gotoEnabled gotoEnabled
      let errorLabel ← Json.withDefault? Json.text? default.errorLabel errorLabel
      return { maxScanDepth, gasLimit, maxStringLength, gotoEnabled, errorLabel }
  | _ => none

/-- Read a configuration from a JSON text. -/
def RunConfig.parse? (s : String) : Option RunConfig :=
  (Json.parse? s).bind RunConfig.ofJson?

end CellScript
