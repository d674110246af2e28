/-
Module: CellScript.Number.Fixed
Purpose: Elementary functions on fixed-point numbers with a chosen number of binary places.
Main exports: squareRoot, arc, arctan, pi, sin, cos, artanh, ln2, ln, exp
-/

namespace CellScript.Fixed

/-!
A fixed-point number with `places` binary places is an integer that counts units of
`2 ^ -places`. Each function sums a power series whose terms shrink at least by half, and rounds
every term down. With a few hundred places the result is off by no more than some thousand units.
-/

/-- The square root of `n` from a guess above it: each guess is the mean of the last one and the
quotient by it, as long as that is less. At most `fuel` steps are made. -/
def squareRootFrom (n : Nat) : Nat → Nat → Nat
  | 0, guess => guess
  | fuel + 1, guess =>
      let better := (guess + n / guess) / 2
      if better < guess then squareRootFrom n fuel better else guess

/-- The integer part of the square root of a natural. -/
def squareRoot (n : Nat) : Nat :=
  if n = 0 then 0 else squareRootFrom n (n.log2 + 1) (Nat.pow 2 (n.log2 / 2 + 1))

/-- The sum of the series with the given term and next terms `term * ratio * 2k / (2k + 1)`, from
index `k` on. -/
def arcFrom (places ratio : Nat) : Nat → Nat → Nat → Nat
  | 0, _, _ => 0
  | fuel + 1, k, term =>
      if term = 0 then
        0
      else
        term + arcFrom places ratio fuel (k + 1)
          (term * ratio * (2 * k) / (2 * k + 1) / Nat.pow 2 places)

/-- The angle whose sine and cosine have the product `product`, where the square of the sine is
`ratio` and at most one half. -/
def arc (places product ratio : Nat) : Nat :=
  arcFrom places ratio (2 * places) 1 product

/-- The angle whose tangent is `num / den`, for `num ≤ den`. -/
def arctan (places num den : Nat) : Nat :=
  let square := num * num + den * den
  arc places (num * den * Nat.pow 2 places / square) (num * num * Nat.pow 2 places / square)

/-- Half a turn, from the angles of two small tangents. -/
def pi (places : Nat) : Nat :=
  16 * arctan places 1 5 - 4 * arctan places 1 239

/-- The alternating series with the given term, where each next term is the last one times
`square / ((k + 1) * (k + 2))`. -/
def waveFrom (places square : Nat) : Nat → Nat → Nat → Int
  | 0, _, _ => 0
  | fuel + 1, k, term =>
      if term = 0 then
        0
      else
        (term : Int)
          - waveFrom places square fuel (k + 2)
            (term * square / ((k + 1) * (k + 2)) / Nat.pow 2 places)

/-- The sine of an angle of at most one radian. -/
def sin (places angle : Nat) : Int :=
  waveFrom places (angle * angle / Nat.pow 2 places) places 1 angle

/-- The cosine of an angle of at most one radian. -/
def cos (places angle : Nat) : Int :=
  waveFrom places (angle * angle / Nat.pow 2 places) places 0 (Nat.pow 2 places)

/-- The sum of `power / k` and its successors, where each next power is the last one times
`square` and `k` goes up by two. -/
def artanhFrom (places square : Nat) : Nat → Nat → Nat → Nat
  | 0, _, _ => 0
  | fuel + 1, k, power =>
      if power = 0 then
        0
      else
        power / k + artanhFrom places square fuel (k + 2) (power * square / Nat.pow 2 places)

/-- The area tangent of `num / den`, for `2 * num ≤ den`. -/
def artanh (places num den : Nat) : Nat :=
  artanhFrom places (num * num * Nat.pow 2 places / (den * den)) places 1
    (num * Nat.pow 2 places / den)

/-- The natural logarithm of two. -/
def ln2 (places : Nat) : Nat :=
  2 * artanh places 1 3

/-- The natural logarithm of `num / den`, for a ratio between one half and two. -/
def ln (places num den : Nat) : Int :=
  if den ≤ num then
    2 * (artanh places (num - den) (num + den) : Int)
  else
    -(2 * (artanh places (den - num) (num + den) : Int))

/-- The exponential series with the given term, where each next term is the last one times
`x / k`. -/
def expFrom (places : Nat) (x : Int) : Nat → Nat → Int → Int
  | 0, _, _ => 0
  | fuel + 1, k, term =>
      if term = 0 then
        0
      else
        term + expFrom places x fuel (k + 1) ((term * x).tdiv (k * Nat.pow 2 places : Nat))

/-- The exponential of a number between minus one and one. -/
def exp (places : Nat) (x : Int) : Int :=
  expFrom places x places 1 (Nat.pow 2 places : Nat)

end CellScript.Fixed
