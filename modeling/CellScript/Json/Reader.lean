/-
Module: CellScript.Json.Reader
Purpose: Reading a JSON text to a tree.
Main exports: Json.parse?
-/
import CellScript.Json.Lexeme

namespace CellScript.Json

/-- A container that is still open: its items so far, or its members so far and the key whose value
is being read. Both are in reverse. -/
inductive Frame where
  | items (read : List Json)
  | members (read : List (List Nat × Json)) (key : List Nat)

/-- What may come next, inside which open containers. -/
inductive Expect where
  | value (stack : List Frame)
  | firstItem (stack : List Frame)
  | afterItem (stack : List Frame) (read : List Json)
  | firstKey (stack : List Frame)
  | key (stack : List Frame) (read : List (List Nat × Json))
  | colon (stack : List Frame) (read : List (List Nat × Json)) (key : List Nat)
  | afterMember (stack : List Frame) (read : List (List Nat × Json))
  | nothing (document : Json)

/-- A value is complete: it goes into the innermost open container. -/
def complete : List Frame → Json → Expect
  | [], v => .nothing v
  | .items read :: stack, v => .afterItem stack (v :: read)
  | .members read key :: stack, v => .afterMember stack ((key, v) :: read)

/-- A lexeme that starts a value. -/
def startValue (stack : List Frame) : Lexeme → Option Expect
  | .null => some (complete stack .null)
  | .bool b => some (complete stack (.bool b))
  | .number literal => some (complete stack (.number literal))
  | .text codes => some (complete stack (.text codes))
  | .openBracket => some (.firstItem stack)
  | .openBrace => some (.firstKey stack)
  | _ => none

/-- Take one lexeme. -/
def stepLexeme : Expect → Lexeme → Option Expect
  | .value stack, l => startValue stack l
  | .firstItem stack, .closeBracket => some (complete stack (.array []))
  | .firstItem stack, l => startValue (.items [] :: stack) l
  | .afterItem stack read, .comma => some (.value (.items read :: stack))
  | .afterItem stack read, .closeBracket => some (complete stack (.array read.reverse))
  | .afterItem _ _, _ => none
  | .firstKey stack, .closeBrace => some (complete stack (.object []))
  | .firstKey stack, .text key => some (.colon stack [] key)
  | .firstKey _, _ => none
  | .key stack read, .text key => some (.colon stack read key)
  | .key _ _, _ => none
  | .colon stack read key, .colon => some (.value (.members read key :: stack))
  | .colon _ _ _, _ => none
  | .afterMember stack read, .comma => some (.key stack read)
  | .afterMember stack read, .closeBrace => some (complete stack (.object read.reverse))
  | .afterMember _ _, _ => none
  | .nothing _, _ => none

/-- The document of a list of lexemes. -/
def ofLexemes? (ls : List Lexeme) : Option Json :=
  match ls.foldlM stepLexeme (.value []) with
  | some (.nothing document) => some document
  | _ => none

/-- The document of a text. -/
def parse? (s : String) : Option Json :=
  (lex s.toList).bind ofLexemes?

end CellScript.Json
