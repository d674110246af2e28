/-
Module: CellScript.Json
Purpose: JSON documents as trees, and their compact text.
Main exports: Json, Json.ofText, Json.textOfCodes?, Json.render
-/
import CellScript.Text.Integer

namespace CellScript

/-- A JSON value. A number keeps its literal. A text is a list of code points, in which a surrogate
without its partner may stand, since an escape can write one. -/
inductive Json where
  | null
  | bool (b : Bool)
  | number (literal : List Char)
  | text (codes : List Nat)
  | array (items : List Json)
  | object (members : List (List Nat × Json))
deriving Repr, Inhabited

namespace Json

/-! ### Texts -/

/-- Whether a code point is the first half of a pair. -/
def isHighSurrogate (code : Nat) : Bool :=
  0xD800 ≤ code && code ≤ 0xDBFF

/-- Whether a code point is the second half of a pair. -/
def isLowSurrogate (code : Nat) : Bool :=
  0xDC00 ≤ code && code ≤ 0xDFFF

/-- The character that a pair of surrogates stands for. -/
def pairedChar (high low : Nat) : Char :=
  Char.ofNat (0x10000 + (high - 0xD800) * 0x400 + (low - 0xDC00))

/-- The characters of a list of code points, if every surrogate has its partner. -/
def charsOfCodes : List Nat → Option (List Char)
  | [] => some []
  | [code] =>
      if isHighSurrogate code || isLowSurrogate code then none else some [Char.ofNat code]
  | code :: next :: rest =>
      if isHighSurrogate code then
        if isLowSurrogate next then
          (charsOfCodes rest).map (pairedChar code next :: ·)
        else
          none
      else if isLowSurrogate code then
        none
      else
        (charsOfCodes (next :: rest)).map (Char.ofNat code :: ·)

/-- The code points of a text. -/
def codesOf (s : String) : List Nat :=
  s.toList.map Char.toNat

/-- A text as a document. -/
def ofText (s : String) : Json :=
  text (codesOf s)

/-- The text of a list of code points. -/
def textOfCodes? (codes : List Nat) : Option String :=
  (charsOfCodes codes).map String.ofList

/-- A natural as a document. -/
def ofNat (n : Nat) : Json :=
  number (Nat.toDigits 10 n)

/-- An integer as a document. -/
def ofInt (n : Int) : Json :=
  number (Text.integerText n).toList

/-- An object with members named by texts. -/
def ofFields (fields : List (String × Json)) : Json :=
  object (fields.map fun field => (codesOf field.1, field.2))

/-! ### Compact text -/

/-- The four hexadecimal digits of a code point. -/
def hexDigits (code : Nat) : List Char :=
  [code / 4096 % 16, code / 256 % 16, code / 16 % 16, code % 16].map Nat.digitChar

/-- The escape of a code point. -/
def unicodeEscape (code : Nat) : List Char :=
  '\\' :: 'u' :: hexDigits code

/-- A code point inside quotation marks. Only what cannot stand for itself is escaped. -/
def renderCode (code : Nat) : List Char :=
  if code = 0x22 then ['\\', '"']
  else if code = 0x5C then ['\\', '\\']
  else if code = 0x08 then ['\\', 'b']
  else if code = 0x0C then ['\\', 'f']
  else if code = 0x0A then ['\\', 'n']
  else if code = 0x0D then ['\\', 'r']
  else if code = 0x09 then ['\\', 't']
  else if code < 0x20 || isHighSurrogate code || isLowSurrogate code then unicodeEscape code
  else [Char.ofNat code]

/-- A text in quotation marks. -/
def renderText (codes : List Nat) : List Char :=
  '"' :: codes.flatMap renderCode ++ ['"']

mutual

/-- The compact text of a document. -/
def renderChars : Json → List Char
  | null => ['n', 'u', 'l', 'l']
  | bool true => ['t', 'r', 'u', 'e']
  | bool false => ['f', 'a', 'l', 's', 'e']
  | number literal => literal
  | text codes => renderText codes
  | array items => '[' :: renderItems items ++ [']']
  | object members => '\x7b' :: renderMembers members ++ ['\x7d']

/-- The items of an array, with commas between them. -/
def renderItems : List Json → List Char
  | [] => []
  | [item] => renderChars item
  | item :: rest => renderChars item ++ ',' :: renderItems rest

/-- The members of an object, with commas between them. -/
def renderMembers : List (List Nat × Json) → List Char
  | [] => []
  | [member] => renderMember member
  | member :: rest => renderMember member ++ ',' :: renderMembers rest

/-- A member of an object. -/
def renderMember : List Nat × Json → List Char
  | (key, value) => renderText key ++ ':' :: renderChars value

end

/-- The compact text of a document. -/
def render (j : Json) : String :=
  String.ofList j.renderChars

end Json

end CellScript
