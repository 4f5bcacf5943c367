import RoundScoring.Binary64.Rounding
import RoundScoring.Scalar

/-!
Decimal logarithm, and powers of two and of ten, and with them binary64 numbers as the scalars of a
running system. All three are summed as series of whole numbers that stand for multiples of
2 ^ -128, far below half a unit of any result, and rounded once. A power with a whole exponent is
exact before the rounding.

Infinities and the value that is no number take part in every rule; only a power beyond the largest
number has no result.
-/

namespace RoundScoring.Binary64

/-- The places behind the binary point. -/
def places : Nat := 128

/-- `p + p s / 3 + p s² / 5 + …`, where `p` is `power` and `s` is `square`: with `p = z` and
`s = z²` the inverse hyperbolic tangent of `z`. -/
def oddSeries (square : Nat) : (terms : Nat) → (power odd : Nat) → Nat
  | 0, _, _ => 0
  | terms + 1, power, odd =>
      power / odd + oddSeries square terms ((power * square) >>> places) (odd + 2)

/-- The natural logarithm of a quotient between one and two: twice the inverse hyperbolic tangent
of its distance from one over its sum with one, which is at most a third. -/
def logOfQuotient (numerator denominator : Nat) : Nat :=
  let z := ((numerator - denominator) <<< places) / (numerator + denominator)
  2 * oddSeries ((z * z) >>> places) 44 z 1

def log2 : Nat := logOfQuotient 2 1

/-- Ten is eight times five quarters. -/
def log10 : Nat := 3 * log2 + logOfQuotient 5 4

def logarithmOf (significand : Nat) (exponent : Int) : Float :=
  let width := significand.log2
  let natural := (exponent + width) * log2 + logOfQuotient significand (powerOfTwo width)
  ofQuotient (natural < 0) natural.natAbs log10

def logarithm (x : Float) : Float :=
  match content x with
  | .finite false 0 _ | .finite true 0 _ => 0.0 - infinity
  | .finite false significand exponent => logarithmOf significand exponent
  | .infinite false => infinity
  | _ => notANumber

/-- `term + term t / n + term t² / (n (n + 1)) + …`: from one, the exponential of `t`. -/
def factorialSeries (t : Nat) : (terms : Nat) → (term divisor : Nat) → Nat
  | 0, _, _ => 0
  | terms + 1, term, divisor =>
      term + factorialSeries t terms (((term * t) >>> places) / divisor) (divisor + 1)

/-- `base` to the power `whole + part / 2 ^ width`, where `log` is the natural logarithm of `base`
and the fraction is below one. -/
def powerOf (base log : Nat) (whole : Int) (part width : Nat) : Float :=
  let scaled := factorialSeries ((log * part) >>> width) 56 (powerOfTwo places) 1
  if whole < 0 then
    ofQuotient false scaled (Nat.pow base whole.natAbs <<< places)
  else
    ofQuotient false (scaled * Nat.pow base whole.natAbs) (powerOfTwo places)

/-- The base is at least two, so an exponent of 1024 is too large and one below -1100 vanishes. -/
def power? (base log : Nat) (x : Float) : Option Float :=
  match content x with
  | .notANumber => some x
  | .infinite negative => some (if negative then 0.0 else x)
  | .finite negative significand exponent =>
      if 1024.0 ≤ x then none
      else if x ≤ -1100.0 then some 0.0
      else
        let width := (-exponent).toNat
        let scaled : Nat := significand * powerOfTwo exponent.toNat
        let shifted : Int := if negative then -scaled else scaled
        let unit : Int := powerOfTwo width
        let result := powerOf base log (shifted / unit) (shifted % unit).toNat width
        if result.isFinite then some result else none

def powerOfTwo? : Float → Option Float := power? 2 log2

def powerOfTen? : Float → Option Float := power? 10 log10

instance : Scalar Float where
  natCast := Float.ofNat
  decidableLE := inferInstance
  decidableLT := inferInstance
  isFinite := Float.isFinite
  sqrt := Float.sqrt
  log10 := logarithm
  powerOfTwo? := powerOfTwo?
  powerOfTen? := powerOfTen?

end RoundScoring.Binary64
