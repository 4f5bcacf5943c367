/-!
Between binary64 numbers and exact arithmetic. A finite number is a whole significand times a power
of two, and an exact quotient of whole numbers has a nearest number; functions that the format does
not define are computed on whole numbers and rounded here once.
-/

namespace RoundScoring.Binary64

open Float.Model (UnpackedFloat)

def powerOfTwo (n : Nat) : Nat := 1 <<< n

/-- The exact content of a number, with zero among the finite ones. -/
inductive Content where
  | notANumber
  | infinite (negative : Bool)
  | finite (negative : Bool) (significand : Nat) (exponent : Int)
deriving DecidableEq

private def isNegative : UnpackedFloat.Sign → Bool
  | .negative => true
  | .positive => false

def content (x : Float) : Content :=
  match x.toModel.unpack with
  | .notANumber => .notANumber
  | .infinity sign => .infinite (isNegative sign)
  | .zero sign => .finite (isNegative sign) 0 0
  | .finite sign significand exponent _ => .finite (isNegative sign) significand exponent

private def sign (negative : Bool) : UnpackedFloat.Sign :=
  if negative then .negative else .positive

/-- The nearest number to a quotient, ties to the even significand, and zero when either part is
zero. The result is infinite when the quotient is beyond the largest number. -/
def ofQuotient (negative : Bool) (numerator denominator : Nat) : Float :=
  if above : 0 < numerator ∧ 0 < denominator then
    Float.ofModel (Float.Model.pack (UnpackedFloat.div .binary64
      (.finite (sign negative) numerator 0 above.1)
      (.finite .positive denominator 0 above.2)))
  else
    Float.ofModel (Float.Model.pack (.zero (sign negative)))

def notANumber : Float := 0.0 / 0.0

def infinity : Float := 1.0 / 0.0

end RoundScoring.Binary64
