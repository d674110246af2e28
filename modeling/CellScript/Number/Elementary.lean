/-
Module: CellScript.Number.Elementary
Purpose: Trigonometric functions and powers of single precision numbers, correctly rounded.
Main exports: Single.sin, Single.cos, Single.tan, Single.asin, Single.acos, Single.atan, Single.pow
-/
import CellScript.Number.Fixed
import CellScript.Number.Single

namespace CellScript

/-!
Each function estimates the exact value with hundreds of binary places, together with a bound on
the error. If both ends of the error interval round to the same number, that number is the
correctly rounded value. Otherwise the estimate is made again with more places. Where the exact
value is itself a number, or half way between two, no estimate could tell, so these arguments
are recognised first: zero and one for the angles, and for powers those with few digits.
-/

/-- The value `centre * 2 ^ exponent` units with an error of at most `radius * 2 ^ exponent`. -/
structure Estimate where
  negative : Bool
  centre : Nat
  radius : Nat
  exponent : Int

namespace Estimate

/-- The number nearest to `magnitude * 2 ^ exponent` units. -/
def nearest (e : Estimate) (magnitude : Nat) : Single :=
  .ofRatio e.negative (magnitude * Nat.pow 2 e.exponent.toNat) (Nat.pow 2 (-e.exponent).toNat)

/-- The rounded value, if the error leaves no doubt about it. -/
def decisive? (e : Estimate) : Option Single :=
  let low := e.nearest (e.centre - e.radius)
  let high := e.nearest (e.centre + e.radius)
  if low = high then some low else none

/-- The estimate of a fixed-point result, with an allowance that covers every error made. -/
def ofFixed (places : Nat) (value : Int) : Estimate where
  negative := value < 0
  centre := value.natAbs
  radius := Nat.pow 2 (places / 3)
  exponent := 149 - (places : Int)

/-- The first decisive estimate as the number of places grows. -/
def settle (estimate : Nat → Estimate) : Single :=
  match [512, 1024, 2048].findSome? fun places => (estimate places).decisive? with
  | some x => x
  | none => (estimate 2048).nearest (estimate 2048).centre

end Estimate

namespace Single

/-- A finite magnitude as a fixed-point number; exact from 149 places on. -/
def fixed (places magnitude : Nat) : Nat :=
  magnitude * Nat.pow 2 places / unit

/-! ### Angles -/

/-- An angle as a number of quarter turns and the rest, which is at most an eighth of a turn. -/
def quarterTurns (places magnitude : Nat) : Nat × Int :=
  let quarter := Fixed.pi places / 2
  let angle := fixed places magnitude
  let turns := (2 * angle + quarter) / (2 * quarter)
  (turns, (angle : Int) - turns * quarter)

/-- The sine of a rest angle of either sign. -/
def restSin (places : Nat) (rest : Int) : Int :=
  if rest < 0 then -Fixed.sin places rest.natAbs else Fixed.sin places rest.natAbs

/-- The sine of a magnitude: a quarter turn exchanges sine and cosine. -/
def sinFixed (places magnitude : Nat) : Int :=
  let (turns, rest) := quarterTurns places magnitude
  match turns % 4 with
  | 0 => restSin places rest
  | 1 => Fixed.cos places rest.natAbs
  | 2 => -restSin places rest
  | _ => -Fixed.cos places rest.natAbs

/-- The cosine of a magnitude. -/
def cosFixed (places magnitude : Nat) : Int :=
  let (turns, rest) := quarterTurns places magnitude
  match turns % 4 with
  | 0 => Fixed.cos places rest.natAbs
  | 1 => -restSin places rest
  | 2 => -Fixed.cos places rest.natAbs
  | _ => restSin places rest

/-- The tangent of a magnitude. -/
def tanFixed (places magnitude : Nat) : Int :=
  (sinFixed places magnitude * (Nat.pow 2 places : Nat)).tdiv (cosFixed places magnitude)

/-- An odd function of a finite number, which is zero only at zero, from its fixed-point values
for positive arguments. -/
def oddFunction (f : Nat → Nat → Int) (negative : Bool) (magnitude : Nat) : Single :=
  if magnitude = 0 then
    signedZero negative
  else
    let y := Estimate.settle fun places => .ofFixed places (f places magnitude)
    if negative then y.neg else y

/-- The sine of an angle in radians. -/
def sin (x : Single) : Single :=
  match x.classify with
  | .finite s a => oddFunction sinFixed s a
  | _ => nan

/-- The cosine of an angle in radians. -/
def cos (x : Single) : Single :=
  match x.classify with
  | .finite _ a =>
      if a = 0 then one else Estimate.settle fun places => .ofFixed places (cosFixed places a)
  | _ => nan

/-- The tangent of an angle in radians. -/
def tan (x : Single) : Single :=
  match x.classify with
  | .finite s a => oddFunction tanFixed s a
  | _ => nan

/-- The angle whose sine is a magnitude of at most one. Above an eighth of a turn the angle is
taken from the cosine. -/
def asinFixed (places magnitude : Nat) : Int :=
  let sine := fixed places magnitude
  let full := Nat.pow 2 (2 * places)
  let square := sine * sine
  let product := sine * Fixed.squareRoot (full - square) / Nat.pow 2 places
  if 2 * square ≤ full then
    Fixed.arc places product (square / Nat.pow 2 places)
  else
    (Fixed.pi places / 2 : Nat) -
      (Fixed.arc places product ((full - square) / Nat.pow 2 places) : Int)

/-- The angle whose tangent is a magnitude. -/
def atanFixed (places magnitude : Nat) : Int :=
  if magnitude ≤ unit then
    Fixed.arctan places magnitude unit
  else
    (Fixed.pi places / 2 : Nat) - (Fixed.arctan places unit magnitude : Int)

/-- The angle whose sine is a number from minus one to one. -/
def asin (x : Single) : Single :=
  match x.classify with
  | .finite s a => if a ≤ unit then oddFunction asinFixed s a else nan
  | _ => nan

/-- The angle whose cosine is a number from minus one to one. -/
def acos (x : Single) : Single :=
  match x.classify with
  | .finite s a =>
      if !s && a == unit then
        zero
      else if a ≤ unit then
        Estimate.settle fun places =>
          let quarter : Int := (Fixed.pi places / 2 : Nat)
          let angle := asinFixed places a
          .ofFixed places (if s then quarter + angle else quarter - angle)
      else
        nan
  | _ => nan

/-- The angle whose tangent is a number, at most a quarter turn. -/
def atan (x : Single) : Single :=
  match x.classify with
  | .finite s a => oddFunction atanFixed s a
  | .infinite s =>
      let quarter := Estimate.settle fun places => .ofFixed places (Fixed.pi places / 2 : Nat)
      if s then quarter.neg else quarter
  | .nan => nan

/-! ### Powers -/

/-- A natural above zero as an odd factor and the number of factors two, at most `fuel`. -/
def splitTwos : Nat → Nat → Nat × Nat
  | 0, n => (n, 0)
  | fuel + 1, n =>
      if n % 2 = 0 then
        let (odd, twos) := splitTwos fuel (n / 2)
        (odd, twos + 1)
      else
        (n, 0)

/-- Take `count` square roots of `odd * 2 ^ twos`, as long as they are of that form. -/
def exactRoots? : Nat → Nat → Int → Option (Nat × Int)
  | 0, odd, twos => some (odd, twos)
  | count + 1, odd, twos =>
      let root := Fixed.squareRoot odd
      if root * root = odd ∧ twos % 2 = 0 then exactRoots? count root (twos / 2) else none

/-- A factor of at most `24 * 24` binary digits is infinite when multiplied by two to this power,
and zero with the opposite power. -/
def exponentBound : Int := 1000

/-- The power of two positive finite numbers with the exponent's sign apart, where it has few
binary digits. Gives an odd factor and the exponent of two. -/
def exactPower? (base : Nat) (negativeExponent : Bool) (exponent : Nat) : Option (Nat × Int) :=
  let (odd, twos) := splitTwos 300 base
  let (factor, shift) := splitTwos 300 exponent
  match exactRoots? (149 - shift) odd ((twos : Int) - 149) with
  | none => none
  | some (root, rootTwos) =>
      let times := factor * Nat.pow 2 (shift - 149)
      if root = 1 then
        some (1, if negativeExponent then -(rootTwos * times) else rootTwos * times)
      else if !negativeExponent && times ≤ 24 then
        some (Nat.pow root times, rootTwos * times)
      else
        none

/-- The natural logarithm of a positive magnitude, from the nearest power of two. -/
def lnFixed (places magnitude : Nat) : Int :=
  let lead := magnitude.log2
  let twos := if 3 * Nat.pow 2 lead ≤ 2 * magnitude then lead + 1 else lead
  Fixed.ln places magnitude (Nat.pow 2 twos) + ((twos : Int) - 149) * (Fixed.ln2 places : Int)

/-- An estimate of a power of positive finite numbers. The exponent of two is brought into bounds
first, as everything beyond rounds to zero or infinity. -/
def powEstimate (base : Nat) (negativeExponent : Bool) (exponent places : Nat) : Estimate :=
  let product := lnFixed places base * exponent / (unit : Int)
  let log := if negativeExponent then -product else product
  let two : Int := Fixed.ln2 places
  let halvings := (2 * log + two) / (2 * two)
  if halvings < -exponentBound ∨ exponentBound < halvings then
    { negative := false, centre := 1, radius := 0,
      exponent := if halvings < 0 then -exponentBound else exponentBound }
  else
    let e := Estimate.ofFixed places (Fixed.exp places (log - halvings * two))
    { e with exponent := e.exponent + halvings }

/-- The power of positive finite magnitudes in units. -/
def powPositive (base : Nat) (negativeExponent : Bool) (exponent : Nat) : Single :=
  match exactPower? base negativeExponent exponent with
  | some (odd, twos) =>
      let e : Estimate :=
        { negative := false, centre := odd, radius := 0,
          exponent := max (-exponentBound) (min exponentBound (twos + 149)) }
      e.nearest odd
  | none => Estimate.settle (powEstimate base negativeExponent exponent)

/-- Whether a magnitude in units is a whole number. -/
def isWhole (magnitude : Nat) : Bool :=
  magnitude % unit == 0

/-- Whether a magnitude in units is an odd whole number. -/
def isOddWhole (magnitude : Nat) : Bool :=
  isWhole magnitude && magnitude / unit % 2 == 1

/-- Zero or infinity raised to an exponent: zero to a positive one and infinity to a negative one
give zero, the other two give infinity. -/
def powExtreme (negative large negativeExponent : Bool) : Single :=
  if large == negativeExponent then signedZero negative else infinity negative

/-- A number raised to a power. Anything to the power zero is one, and one to any power. A negative
base has powers only for whole exponents, and odd ones keep its sign. -/
def pow (x y : Single) : Single :=
  if y.isZero || x == one then
    one
  else
    match x.classify, y.classify with
    | .nan, _ | _, .nan => nan
    | .infinite _, .infinite t => powExtreme false true t
    | .infinite s, .finite t b => powExtreme (s && isOddWhole b) true t
    | .finite _ a, .infinite t =>
        if a = unit then one else powExtreme false (unit < a) t
    | .finite s a, .finite t b =>
        let sign := s && isOddWhole b
        if a = 0 then
          powExtreme sign false t
        else if s && !isWhole b then
          nan
        else
          let magnitude := powPositive a t b
          if sign then magnitude.neg else magnitude

end Single

end CellScript
