/-
Module: CellScript.Number.Single
Purpose: Single precision numbers as bit patterns, with exact arithmetic rounded once.
Main exports:
  Single, Single.units, Single.ofRatio, Single.classify, arithmetic, comparison, conversion
-/

namespace CellScript

/-!
Every finite single precision number is a whole number of units of `2 ^ -149`, up to its sign. An
operation computes its exact result in these units, as a ratio of naturals, and rounds it once.
The magnitudes of the finite numbers and infinity, read as naturals from the lower 31 bits, are
in the order of their values. So comparison is comparison of patterns, and the neighbours of a
number are the neighbouring patterns.
-/

/-- A single precision number, held as its 32 bits. -/
structure Single where
  bits : UInt32
deriving DecidableEq, Repr, Inhabited

namespace Single

/-- The number of units in 1. -/
def unit : Nat := Nat.pow 2 149

/-- The pattern of an infinite magnitude. Every larger pattern is no number. -/
def infinityPattern : Nat := 0x7F800000

/-- The sign bit. -/
def negative (x : Single) : Bool :=
  Nat.pow 2 31 ≤ x.bits.toNat

/-- The bits below the sign. -/
def pattern (x : Single) : Nat :=
  x.bits.toNat % Nat.pow 2 31

/-- The magnitude of a pattern in units. The field above the lowest 23 bits says how often the
significand is doubled. -/
def units (pattern : Nat) : Nat :=
  let field := pattern / Nat.pow 2 23
  if field = 0 then pattern else (Nat.pow 2 23 + pattern % Nat.pow 2 23) * Nat.pow 2 (field - 1)

/-- A number from its sign and pattern. -/
def ofPattern (negative : Bool) (pattern : Nat) : Single :=
  ⟨UInt32.ofNat (if negative then Nat.pow 2 31 + pattern else pattern)⟩

/-- Positive zero. -/
def zero : Single := ⟨0⟩

/-- The number one. -/
def one : Single := ⟨0x3F800000⟩

/-- A value that is no number. -/
def nan : Single := ⟨0x7FC00000⟩

/-- Infinity of a given sign. -/
def infinity (negative : Bool) : Single :=
  ofPattern negative infinityPattern

/-- Zero of a given sign. -/
def signedZero (negative : Bool) : Single :=
  ofPattern negative 0

/-- The circle constant. -/
def pi : Single := ⟨0x40490FDB⟩

/-- The base of the natural logarithm. -/
def expBase : Single := ⟨0x402DF854⟩

/-! ### Rounding -/

/-- The natural nearest to `num / den`, the even one of two that are equally near. -/
def roundDiv (num den : Nat) : Nat :=
  let quotient := num / den
  let rest := num % den
  if 2 * rest < den || (2 * rest == den && quotient % 2 == 0) then quotient else quotient + 1

/-- The pattern nearest to `num / den` units. Half way between two patterns the even one is
taken, and beyond the largest finite number infinity. -/
def roundPattern (num den : Nat) : Nat :=
  let doublings := (num / den).log2 - 23
  min (doublings * Nat.pow 2 23 + roundDiv num (den * Nat.pow 2 doublings)) infinityPattern

/-- The number nearest to `num / den` units, with a given sign. -/
def ofRatio (negative : Bool) (num den : Nat) : Single :=
  ofPattern negative (roundPattern num den)

/-! ### Classes and order -/

/-- What a number is: a finite one is given by its sign and its magnitude in units. -/
inductive Class where
  | nan
  | infinite (negative : Bool)
  | finite (negative : Bool) (magnitude : Nat)
deriving DecidableEq, Repr

/-- The class of a number. -/
def classify (x : Single) : Class :=
  if x.pattern < infinityPattern then
    .finite x.negative (units x.pattern)
  else if x.pattern = infinityPattern then
    .infinite x.negative
  else
    .nan

/-- Whether a value is no number. -/
def isNaN (x : Single) : Bool :=
  infinityPattern < x.pattern

/-- The pattern with its sign: orders all numbers, and both zeros have the key 0. -/
def key (x : Single) : Int :=
  if x.negative then -(x.pattern : Int) else x.pattern

/-- Numerical equality: the zeros are equal, and no value equals one that is no number. -/
def eq (x y : Single) : Bool :=
  !x.isNaN && !y.isNaN && x.key == y.key

/-- Numerical order; false where one side is no number. -/
def lt (x y : Single) : Bool :=
  !x.isNaN && !y.isNaN && x.key < y.key

/-- Numerical order or equality; false where one side is no number. -/
def le (x y : Single) : Bool :=
  !x.isNaN && !y.isNaN && x.key ≤ y.key

/-- Whether a number is one of the zeros. -/
def isZero (x : Single) : Bool :=
  x.pattern == 0

/-! ### Arithmetic -/

/-- The number with the other sign. -/
def neg (x : Single) : Single :=
  ⟨x.bits ^^^ 0x80000000⟩

/-- The magnitude of a number. -/
def abs (x : Single) : Single :=
  ⟨x.bits &&& 0x7FFFFFFF⟩

/-- A magnitude in units with its sign. -/
def signed (negative : Bool) (magnitude : Nat) : Int :=
  if negative then -(magnitude : Int) else magnitude

/-- The rounded sum. An exact sum of zero is negative only if both operands are. -/
def add (x y : Single) : Single :=
  match x.classify, y.classify with
  | .nan, _ | _, .nan => nan
  | .infinite s, .infinite t => if s == t then infinity s else nan
  | .infinite s, _ => infinity s
  | _, .infinite t => infinity t
  | .finite s a, .finite t b =>
      let sum := signed s a + signed t b
      if sum = 0 then signedZero (s && t) else ofRatio (sum < 0) sum.natAbs 1

/-- The rounded difference. -/
def sub (x y : Single) : Single :=
  x.add y.neg

/-- The rounded product. -/
def mul (x y : Single) : Single :=
  let sign := x.negative != y.negative
  match x.classify, y.classify with
  | .nan, _ | _, .nan => nan
  | .infinite _, .infinite _ => infinity sign
  | .infinite _, .finite _ b => if b = 0 then nan else infinity sign
  | .finite _ a, .infinite _ => if a = 0 then nan else infinity sign
  | .finite _ a, .finite _ b => ofRatio sign (a * b) unit

/-- The rounded quotient. -/
def div (x y : Single) : Single :=
  let sign := x.negative != y.negative
  match x.classify, y.classify with
  | .nan, _ | _, .nan => nan
  | .infinite _, .infinite _ => nan
  | .infinite _, .finite _ _ => infinity sign
  | .finite _ _, .infinite _ => signedZero sign
  | .finite _ a, .finite _ b =>
      if b = 0 then
        if a = 0 then nan else infinity sign
      else
        ofRatio sign (a * unit) b

/-- The exact remainder of division toward zero; it has the sign of the dividend. -/
def rem (x y : Single) : Single :=
  match x.classify, y.classify with
  | .nan, _ | _, .nan => nan
  | .infinite _, _ => nan
  | .finite _ _, .infinite _ => x
  | .finite s a, .finite _ b => if b = 0 then nan else ofRatio s (a % b) 1

/-- The largest whole number that is not above a number. -/
def floor (x : Single) : Single :=
  match x.classify with
  | .finite s a =>
      let whole := a / unit
      ofRatio s ((if s && a % unit != 0 then whole + 1 else whole) * unit) 1
  | _ => x

/-- The least whole number that is not below a number. -/
def ceil (x : Single) : Single :=
  match x.classify with
  | .finite s a =>
      let whole := a / unit
      ofRatio s ((if !s && a % unit != 0 then whole + 1 else whole) * unit) 1
  | _ => x

/-! ### Conversion -/

/-- The number nearest to an integer. -/
def ofInt (n : Int) : Single :=
  ofRatio (n < 0) (n.natAbs * unit) 1

/-- The integer part, brought into the range of 32 bits. What is no number gives 0. -/
def toInt32 (x : Single) : Int32 :=
  match x.classify with
  | .nan => 0
  | .infinite s => if s then Int32.minValue else Int32.maxValue
  | .finite s a =>
      let whole := signed s (a / unit)
      Int32.ofInt (max Int32.minValue.toInt (min Int32.maxValue.toInt whole))

end Single

end CellScript
