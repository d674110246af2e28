/-
Module: CellScript.Json.Field
Purpose: Taking plain values and the fields of records out of JSON trees.
Main exports: Json.text?, Json.word?, Json.int32?, Json.bool?, Json.name?, Json.fields?
-/
import CellScript.Json

namespace CellScript.Json

/-- A text whose surrogates are all paired. -/
def text? : Json → Option String
  | text codes => textOfCodes? codes
  | _ => none

/-- A natural literal. -/
def natural? : Json → Option Nat
  | number literal => Text.readDigits? literal
  | _ => none

/-- An integer literal. There is no negative zero among the integers. -/
def integer? : Json → Option Int
  | number ('-' :: digits) =>
      match Text.readDigits? digits with
      | some (n + 1) => some (-((n : Int) + 1))
      | _ => none
  | number literal => (Text.readDigits? literal).map fun n => (n : Int)
  | _ => none

/-- A natural literal below `2 ^ 64`. -/
def word? (j : Json) : Option UInt64 :=
  match j.natural? with
  | some n => if n < UInt64.size then some (.ofNat n) else none
  | none => none

/-- An integer literal of 32 bits. -/
def int32? (j : Json) : Option Int32 :=
  match j.integer? with
  | some n =>
      if Int32.minValue.toInt ≤ n ∧ n ≤ Int32.maxValue.toInt then some (.ofInt n) else none
  | none => none

/-- A truth value. -/
def bool? : Json → Option Bool
  | bool b => some b
  | _ => none

/-- One of several names: a text, or an object whose only member has the name and no value. -/
def name? : Json → Option String
  | text codes => textOfCodes? codes
  | object [(key, null)] => textOfCodes? key
  | _ => none

/-- The value of a field that may be left out or null. -/
def optional? {α : Type} (read : Json → Option α) : Option Json → Option (Option α)
  | none => some none
  | some null => some none
  | some j => (read j).map some

/-- The value of a field that is needed. -/
def required? {α : Type} (read : Json → Option α) : Option Json → Option α
  | none => none
  | some j => read j

/-- The value of a field that has a default. -/
def withDefault? {α : Type} (read : Json → Option α) (default : α) : Option Json → Option α
  | none => some default
  | some j => read j

/-- The value of the only member with a name, if there is one. A name given twice is refused. -/
def member? (members : List (List Nat × Json)) (name : String) : Option (Option Json) :=
  match members.filter fun member => textOfCodes? member.1 == some name with
  | [] => some none
  | [member] => some (some member.2)
  | _ => none

/-- The fields of a record with the given names, in that order. An object may have other members
too, but every key has to be a text. An array gives the fields by their place, and may be short
only if `short` allows it. -/
def fields? (names : List String) (short : Bool) : Json → Option (List (Option Json))
  | object members =>
      if members.all fun member => (textOfCodes? member.1).isSome then
        names.mapM (member? members)
      else
        none
  | array items =>
      if items.length ≤ names.length ∧ (short ∨ items.length = names.length) then
        some (items.map some ++ List.replicate (names.length - items.length) none)
      else
        none
  | _ => none

end CellScript.Json
