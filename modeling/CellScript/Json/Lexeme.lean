/-
Module: CellScript.Json.Lexeme
Purpose: The lexemes of a JSON text.
Main exports: Json.Lexeme, Json.lex
-/
import CellScript.Json

namespace CellScript.Json

/-- A lexeme: punctuation, or a value that is not made of others. -/
inductive Lexeme where
  | openBrace
  | closeBrace
  | openBracket
  | closeBracket
  | colon
  | comma
  | null
  | bool (b : Bool)
  | number (literal : List Char)
  | text (codes : List Nat)
deriving DecidableEq, Repr

/-- Where in a number literal the last character stands. `minus`, `point`, `mark` and `sign` need a
digit after them; the others may end the number. -/
inductive NumberPhase where
  | minus
  | zero
  | whole
  | point
  | fraction
  | mark
  | sign
  | exponent
deriving DecidableEq, Repr

/-- Whether a number may end here. -/
def NumberPhase.mayEnd : NumberPhase → Bool
  | zero | whole | fraction | exponent => true
  | _ => false

/-- The phase after one more character, if the number goes on with it. -/
def NumberPhase.next? (phase : NumberPhase) (c : Char) : Option NumberPhase :=
  match phase with
  | minus => if c = '0' then some zero else if c.isDigit then some whole else none
  | zero =>
      if c = '.' then some point else if c = 'e' || c = 'E' then some mark else none
  | whole =>
      if c.isDigit then some whole
      else if c = '.' then some point
      else if c = 'e' || c = 'E' then some mark
      else none
  | point => if c.isDigit then some fraction else none
  | fraction =>
      if c.isDigit then some fraction else if c = 'e' || c = 'E' then some mark else none
  | mark =>
      if c.isDigit then some exponent else if c = '+' || c = '-' then some sign else none
  | sign => if c.isDigit then some exponent else none
  | exponent => if c.isDigit then some exponent else none

/-- What the reader of characters is in the middle of. Characters and code points that were read
are kept in reverse. -/
inductive Mode where
  | between
  | word (left : List Char) (lexeme : Lexeme)
  | number (phase : NumberPhase) (read : List Char)
  | text (read : List Nat)
  | escape (read : List Nat)
  | hex (read : List Nat) (left : Nat) (value : Nat)
deriving DecidableEq, Repr

/-- Whether a character may stand between lexemes. -/
def isSpace (c : Char) : Bool :=
  c == ' ' || c == '\n' || c == '\t' || c == '\r'

/-- The value of a hexadecimal digit. -/
def hexValue? (c : Char) : Option Nat :=
  if c.isDigit then some (c.toNat - '0'.toNat)
  else if 'a' ≤ c ∧ c ≤ 'f' then some (c.toNat - 'a'.toNat + 10)
  else if 'A' ≤ c ∧ c ≤ 'F' then some (c.toNat - 'A'.toNat + 10)
  else none

/-- The code point of a one-character escape. -/
def escapeCode? : Char → Option Nat
  | '"' => some 0x22
  | '\\' => some 0x5C
  | '/' => some 0x2F
  | 'b' => some 0x08
  | 'f' => some 0x0C
  | 'n' => some 0x0A
  | 'r' => some 0x0D
  | 't' => some 0x09
  | _ => none

/-- Read a character between lexemes: the lexeme it completes, if any, and what comes next. -/
def stepBetween (c : Char) : Option (List Lexeme × Mode) :=
  if isSpace c then some ([], .between)
  else
    match c with
    | '\x7b' => some ([.openBrace], .between)
    | '\x7d' => some ([.closeBrace], .between)
    | '[' => some ([.openBracket], .between)
    | ']' => some ([.closeBracket], .between)
    | ':' => some ([.colon], .between)
    | ',' => some ([.comma], .between)
    | '"' => some ([], .text [])
    | 'n' => some ([], .word ['u', 'l', 'l'] .null)
    | 't' => some ([], .word ['r', 'u', 'e'] (.bool true))
    | 'f' => some ([], .word ['a', 'l', 's', 'e'] (.bool false))
    | '-' => some ([], .number .minus ['-'])
    | '0' => some ([], .number .zero ['0'])
    | c => if c.isDigit then some ([], .number .whole [c]) else none

/-- Read one character: the lexemes it completes and what comes next. -/
def stepChar (mode : Mode) (c : Char) : Option (List Lexeme × Mode) :=
  match mode with
  | .between => stepBetween c
  | .word [] _ => none
  | .word [last] lexeme => if c = last then some ([lexeme], .between) else none
  | .word (next :: left) lexeme => if c = next then some ([], .word left lexeme) else none
  | .number phase read =>
      match phase.next? c with
      | some phase => some ([], .number phase (c :: read))
      | none =>
          if phase.mayEnd then
            (stepBetween c).map fun (out, mode) => (.number read.reverse :: out, mode)
          else
            none
  | .text read =>
      if c = '"' then some ([.text read.reverse], .between)
      else if c = '\\' then some ([], .escape read)
      else if c.toNat < 0x20 then none
      else some ([], .text (c.toNat :: read))
  | .escape read =>
      if c = 'u' then some ([], .hex read 3 0)
      else (escapeCode? c).map fun code => ([], .text (code :: read))
  | .hex read left value =>
      match hexValue? c with
      | none => none
      | some digit =>
          let value := value * 16 + digit
          match left with
          | 0 => some ([], .text (value :: read))
          | left + 1 => some ([], .hex read left value)

/-- What the end of the text completes. -/
def finish : Mode → Option (List Lexeme)
  | .between => some []
  | .number phase read => if phase.mayEnd then some [.number read.reverse] else none
  | _ => none

/-- The lexemes of the characters that follow, in a given mode. -/
def lexFrom : Mode → List Char → Option (List Lexeme)
  | mode, [] => finish mode
  | mode, c :: rest =>
      match stepChar mode c with
      | none => none
      | some (out, mode) => (lexFrom mode rest).map (out ++ ·)

/-- The lexemes of a text. -/
def lex (cs : List Char) : Option (List Lexeme) :=
  lexFrom .between cs

end CellScript.Json
