import RoundScoring.Binary64.Rounding

/-!
Decimals: a whole number of units of a power of ten. A decimal is chosen for a binary number by one
module (the fewest digits, or a fixed count of them) and written here, in positions or with an
exponent, so that the choice of digits and their layout stay apart.
-/

namespace RoundScoring

/-- `digits · 10 ^ exponent`, never negative. -/
structure Decimal where
  digits : Nat
  exponent : Int
deriving DecidableEq

namespace Decimal

def powerOfTen (n : Nat) : Nat := Nat.pow 10 n

def digitText (n : Nat) : String := String.ofList (Nat.toDigits 10 n)

def paddedText (width n : Nat) : String :=
  let text := Nat.toDigits 10 n
  String.ofList (List.replicate (width - text.length) '0' ++ text)

/-- The power of ten of the first digit. -/
def leading (d : Decimal) : Int := d.exponent + (Nat.toDigits 10 d.digits).length - 1

/-- Every digit in its place, with at least one behind the point. -/
def positional (d : Decimal) : String :=
  if 0 ≤ d.exponent then
    digitText (d.digits * powerOfTen d.exponent.toNat) ++ ".0"
  else
    let unit := powerOfTen d.exponent.natAbs
    digitText (d.digits / unit) ++ "." ++ paddedText d.exponent.natAbs (d.digits % unit)

def scientific (d : Decimal) : String :=
  let fraction := (Nat.toDigits 10 d.digits).tail
  let lead := (Nat.toDigits 10 d.digits).take 1
  let sign := if d.leading < 0 then "-" else "+"
  String.ofList (lead ++ (if fraction.isEmpty then [] else '.' :: fraction)) ++
    "e" ++ sign ++ paddedText 2 d.leading.natAbs

/-- `significand · 2 ^ exponent` as a quotient of whole numbers. -/
def quotient (significand : Nat) (exponent : Int) : Nat × Nat :=
  (significand * Binary64.powerOfTwo exponent.toNat, Binary64.powerOfTwo (-exponent).toNat)

/-- A quotient counted in units of `10 ^ unit`. -/
def inUnits (value : Nat × Nat) (unit : Int) : Nat × Nat :=
  (value.1 * powerOfTen (-unit).toNat, value.2 * powerOfTen unit.toNat)

/-- The power of ten of a positive quotient's first digit. -/
def leadingOf (value : Nat × Nat) : Int :=
  if value.2 ≤ value.1 then
    (Nat.toDigits 10 (value.1 / value.2)).length - 1
  else
    let below := (Nat.toDigits 10 (value.2 / value.1)).length
    if value.2 ≤ value.1 * powerOfTen (below - 1) then 1 - below else -below

end Decimal
end RoundScoring
