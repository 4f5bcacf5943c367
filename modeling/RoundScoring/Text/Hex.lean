import RoundScoring.Binary64.Rounding

/-!
Base sixteen. The text of a binary64 number is exact: the first bit before the point, the fifty-two
others as thirteen digits behind it, and a power of two. Numbers too small for that have a zero
before the point and the least power.
-/

namespace RoundScoring.Text.Hex

def digit (n : Nat) : Char := (Nat.toDigits 16 (n % 16)).headD '0'

/-- The last `width` digits. -/
def digits : (width n : Nat) → List Char
  | 0, _ => []
  | width + 1, n => digits width (n / 16) ++ [digit n]

def ofBytes (bytes : List UInt8) : String :=
  String.ofList (bytes.flatMap fun b => digits 2 b.toNat)

def leastPower : Int := -1022

open Binary64 (content powerOfTwo) in
def ofFloat (x : Float) : String :=
  let signText (negative : Bool) := if negative then "-" else ""
  match content x with
  | .notANumber => "nan"
  | .infinite negative => signText negative ++ "inf"
  | .finite negative 0 _ => signText negative ++ "0x0.0p+0"
  | .finite negative significand exponent =>
      let power := max (exponent + significand.log2) leastPower
      let scaled := significand * powerOfTwo (exponent - (power - 52)).toNat
      let fraction := digits 13 (scaled % powerOfTwo 52)
      let lead := if scaled < powerOfTwo 52 then '0' else '1'
      signText negative ++ String.ofList ('0' :: 'x' :: lead :: '.' :: fraction) ++ "p" ++
        (if power < 0 then "-" else "+") ++ String.ofList (Nat.toDigits 10 power.natAbs)

end RoundScoring.Text.Hex
