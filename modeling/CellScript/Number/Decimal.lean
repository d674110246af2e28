/-
Module: CellScript.Number.Decimal
Purpose: Decimal text of single precision numbers: the fewest digits that read back, and reading.
Main exports: Decimal, Single.shortest, Single.text, Single.ofText?
-/
import CellScript.Number.Single
import CellScript.Text.Blank
import CellScript.Text.Integer

namespace CellScript

/-!
Writing has two parts. `Single.shortest` selects the digits: of all decimals that read back as the
number it takes one with the fewest digits, and of these the nearest. `Decimal.layout` sets the
point. Reading is the opposite way through one rounding of the exact decimal.
-/

/-- The decimal `digits * 10 ^ exponent`. -/
structure Decimal where
  digits : Nat
  exponent : Int
deriving DecidableEq, Repr, Inhabited

namespace Decimal

/-- The ratio `num / den` divided by `10 ^ exponent`. -/
def shift (num den : Nat) (exponent : Int) : Nat × Nat :=
  (num * Nat.pow 10 (-exponent).toNat, den * Nat.pow 10 exponent.toNat)

/-- Whether twice the decimal, in units of single precision, lies between `low` and `high`, ends
included or not. -/
def isBetween (d : Decimal) (low high : Nat) (ends : Bool) : Bool :=
  let twice := d.digits * Nat.pow 10 d.exponent.toNat * (2 * Single.unit)
  let scale := Nat.pow 10 (-d.exponent).toNat
  if ends then
    low * scale ≤ twice && twice ≤ high * scale
  else
    low * scale < twice && twice < high * scale

/-- The same decimal without trailing zeros among its digits, `fuel` of which are dropped at
most. -/
def stripZeros : Nat → Decimal → Decimal
  | 0, d => d
  | fuel + 1, d =>
      if d.digits % 10 = 0 then stripZeros fuel ⟨d.digits / 10, d.exponent + 1⟩ else d

end Decimal

namespace Single

/-- Twice the bounds of the interval, in units, of all values that round to a finite pattern above
zero: the sums with the two neighbouring patterns. -/
def bounds (pattern : Nat) : Nat × Nat :=
  (units (pattern - 1) + units pattern, units pattern + units (pattern + 1))

/-- Whether a decimal reads back as a finite pattern above zero. The ends of the interval round to
the even pattern. -/
def readsBack (pattern : Nat) (d : Decimal) : Bool :=
  let (low, high) := bounds pattern
  d.isBetween low high (pattern % 2 == 0)

/-- The least power of ten above a magnitude, found in `fuel` steps up from `10 ^ scale`. -/
def scaleFrom (magnitude : Nat) : Nat → Int → Int
  | 0, scale => scale
  | fuel + 1, scale =>
      let (num, den) := Decimal.shift magnitude unit scale
      if num < den then scale else scaleFrom magnitude fuel (scale + 1)

/-- The exponent `s` with `10 ^ (s - 1) ≤ magnitude < 10 ^ s`, for a magnitude in units. -/
def scale (magnitude : Nat) : Int :=
  scaleFrom magnitude 85 (-45)

/-- The decimal on the grid `10 ^ grid` that reads back as a pattern: of the two neighbours of the
value the nearer, and the upper one where they are equally near. -/
def onGrid? (pattern : Nat) (grid : Int) : Option Decimal :=
  let (num, den) := Decimal.shift (units pattern) unit grid
  let below : Decimal := ⟨num / den, grid⟩
  let above : Decimal := ⟨num / den + 1, grid⟩
  match readsBack pattern below, readsBack pattern above with
  | true, true => some (if 2 * (num % den) < den then below else above)
  | true, false => some below
  | false, true => some above
  | false, false => none

/-- The first decimal that reads back, on grids of one digit and finer, for `fuel` grids. -/
def shortestFrom (pattern : Nat) : Nat → Int → Option Decimal
  | 0, _ => none
  | fuel + 1, grid =>
      match onGrid? pattern grid with
      | some d => some d
      | none => shortestFrom pattern fuel (grid - 1)

/-- The value of a pattern as a decimal with all its digits. -/
def exactDecimal (pattern : Nat) : Decimal :=
  ⟨units pattern * Nat.pow 5 149, -149⟩

/-- The shortest decimal that reads back as a finite pattern above zero. Nine digits always
suffice. -/
def shortest (pattern : Nat) : Decimal :=
  match shortestFrom pattern 9 (scale (units pattern) - 1) with
  | some d => d.stripZeros 10
  | none => exactDecimal pattern

end Single

namespace Decimal

/-- The text of `n` zeros. -/
def zeros (n : Nat) : String :=
  String.ofList (List.replicate n '0')

/-- The text of a decimal above zero. Numbers from `10 ^ -4` on and below `10 ^ 16` are written
positionally, with at least one digit after the point. The others have an exponent, and a point
only if they have more than one digit. -/
def layout (d : Decimal) : String :=
  let digits := Nat.toDigits 10 d.digits
  let count := digits.length
  let lead := d.exponent + count - 1
  if -4 ≤ lead ∧ lead < 16 then
    if lead < 0 then
      "0." ++ zeros (-lead - 1).toNat ++ String.ofList digits
    else
      let whole := lead.toNat + 1
      if whole < count then
        String.ofList (digits.take whole) ++ "." ++ String.ofList (digits.drop whole)
      else
        String.ofList digits ++ zeros (whole - count) ++ ".0"
  else
    let fraction := if count = 1 then "" else "." ++ String.ofList (digits.drop 1)
    String.ofList (digits.take 1) ++ fraction ++ "e" ++ Text.integerText lead

end Decimal

namespace Single

/-- The text of a number. -/
def text (x : Single) : String :=
  match x.classify with
  | .nan => "NaN"
  | .infinite s => if s then "-inf" else "inf"
  | .finite s a =>
      let magnitude := if a = 0 then "0.0" else (shortest x.pattern).layout
      if s then "-" ++ magnitude else magnitude

/-! ### Reading -/

/-- The pattern nearest to a decimal. Decimals far out of range are settled by their leading
digit: from `10 ^ 39` on they are infinite, and below `10 ^ -46` they are zero. -/
def patternOfDecimal (d : Decimal) : Nat :=
  let lead := d.exponent + (Nat.toDigits 10 d.digits).length
  if d.digits = 0 || lead < -45 then
    0
  else if 39 < lead then
    infinityPattern
  else
    roundPattern (d.digits * Nat.pow 10 d.exponent.toNat * unit) (Nat.pow 10 (-d.exponent).toNat)

/-- The largest exponent that still takes more digits. -/
def exponentCap : Nat := 0x10000

/-- The value of exponent digits. Digits after the cap is reached do not count: no mantissa is
long enough to bring such a number back into range. -/
def readExponent? (cs : List Char) : Option Nat :=
  if !cs.isEmpty && cs.all Char.isDigit then
    some <| cs.foldl (fun n c => if n < exponentCap then 10 * n + (c.toNat - '0'.toNat) else n) 0
  else
    none

/-- The value of the text after the exponent mark: an optional sign and digits. -/
def readSignedExponent? : List Char → Option Int
  | '-' :: cs => (readExponent? cs).map fun n => -(n : Int)
  | '+' :: cs => (readExponent? cs).map fun n => (n : Int)
  | cs => (readExponent? cs).map fun n => (n : Int)

/-- Whether a character marks an exponent. -/
def isExponentMark (c : Char) : Bool :=
  c == 'e' || c == 'E'

/-- The decimal of a mantissa's digits before and after the point; at least one is needed. -/
def readMantissa? (cs : List Char) : Option Decimal :=
  let whole := cs.takeWhile Char.isDigit
  let fraction? : Option (List Char) :=
    match cs.dropWhile Char.isDigit with
    | [] => some []
    | '.' :: rest => if rest.all Char.isDigit then some rest else none
    | _ => none
  match fraction? with
  | none => none
  | some fraction =>
      let digits := whole ++ fraction
      if digits.isEmpty then
        none
      else
        some ⟨Nat.ofDigitChars 10 digits 0, -(fraction.length : Int)⟩

/-- The decimal of a mantissa with an optional exponent. -/
def readDecimal? (cs : List Char) : Option Decimal :=
  match readMantissa? (cs.takeWhile fun c => !isExponentMark c) with
  | none => none
  | some d =>
      match cs.dropWhile fun c => !isExponentMark c with
      | [] => some d
      | _ :: rest => (readSignedExponent? rest).map fun e => { d with exponent := d.exponent + e }

/-- The magnitude pattern of an unsigned text: a decimal, or a special value in any case. -/
def readMagnitude? (cs : List Char) : Option Nat :=
  let lower := cs.map Char.toLower
  if lower = ['i', 'n', 'f'] || lower = ['i', 'n', 'f', 'i', 'n', 'i', 't', 'y'] then
    some infinityPattern
  else if lower = ['n', 'a', 'n'] then
    some nan.pattern
  else
    (readDecimal? cs).map patternOfDecimal

/-- The number that a text stands for, with one optional sign. -/
def ofText? (cs : List Char) : Option Single :=
  match cs with
  | '-' :: rest => (readMagnitude? rest).map (ofPattern true)
  | '+' :: rest => (readMagnitude? rest).map (ofPattern false)
  | _ => (readMagnitude? cs).map (ofPattern false)

end Single

end CellScript
