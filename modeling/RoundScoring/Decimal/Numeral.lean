/-!
Reading numerals: whole numbers and decimals with a sign, a fraction and an exponent, and single
underscores inside them that only set digits apart. A whole number is first brought to a
canonical text, with no plus, mark or needless zero, and the number is read off that.
-/

namespace RoundScoring.Decimal.Numeral

/-- Takes a sign off the front; true for a minus. -/
def sign : List Char → Bool × List Char
  | '-' :: rest => (true, rest)
  | '+' :: rest => (false, rest)
  | rest => (false, rest)

def valueOf (digits : List Char) : Nat :=
  digits.foldl (fun n c => 10 * n + (c.toNat - '0'.toNat)) 0

/-- The text without its underscores, none of which may stand at an end or beside another. -/
def withoutMarks? (text : List Char) : Option (List Char) :=
  let pairs := text.zip text.tail
  if text.head? = some '_' ∨ text.getLast? = some '_' ∨ ('_', '_') ∈ pairs then none
  else some (text.filter (· ≠ '_'))

/-- Whether each underscore stands between two digits. -/
def marksAmongDigits (afterDigit : Bool) : List Char → Bool
  | [] => true
  | c :: rest =>
      if c = '_' then afterDigit && rest.head?.any Char.isDigit && marksAmongDigits false rest
      else marksAmongDigits c.isDigit rest

/-- At least one digit and nothing else. -/
def natural? (text : List Char) : Option Nat :=
  if text.isEmpty ∨ ¬text.all Char.isDigit then none else some (valueOf text)

def signed (negative : Bool) (n : Nat) : Int := if negative then -n else n

/-- The power of ten behind a decimal: nothing, or the letter and a whole number. -/
def exponent? : List Char → Option Int
  | [] => some 0
  | c :: rest =>
      if c = 'e' ∨ c = 'E' then
        let (negative, digits) := sign rest
        (natural? digits).map (signed negative)
      else none

/-- Digits with a point anywhere among them, and an exponent: `(d, e)` for `d · 10 ^ e`. -/
def decimal? (text : List Char) : Option (Nat × Int) :=
  let whole := text.takeWhile Char.isDigit
  let rest := text.dropWhile Char.isDigit
  let (fraction, rest) := match rest with
    | '.' :: rest => (rest.takeWhile Char.isDigit, rest.dropWhile Char.isDigit)
    | rest => ([], rest)
  if whole.isEmpty ∧ fraction.isEmpty then none
  else (exponent? rest).map fun exponent => (valueOf (whole ++ fraction), exponent - fraction.length)

def toFloat (negative : Bool) (digits : Nat) (exponent : Int) : Float :=
  let magnitude := Float.ofScientific digits (exponent < 0) exponent.natAbs
  if negative then -magnitude else magnitude

/-- A number with a sign, or the name of one that is not finite, in any case. -/
def float? (text : List Char) : Option Float :=
  let (negative, rest) := sign text
  let name := String.ofList (rest.map Char.toLower)
  if name = "nan" then some (0.0 / 0.0)
  else if name = "inf" ∨ name = "infinity" then some (if negative then -1.0 / 0.0 else 1.0 / 0.0)
  else (decimal? rest).map fun (digits, exponent) => toFloat negative digits exponent

/-- Passes over zeros, and underscores among them, up to another digit or a minus. Before a point, or
at the end, the last of them stays. -/
def afterZeros? (last : Char) : List Char → Option (List Char)
  | [] => some [last]
  | c :: rest =>
      if c = '0' ∨ c = '_' then afterZeros? c rest
      else if c.isDigit ∨ c = '-' then some (c :: rest)
      else if c = '.' then some (last :: c :: rest)
      else none

/-- A digit comes first, and the zeros in front of the others are dropped. -/
def withoutLeadingZeros? : List Char → Option (List Char)
  | [] => none
  | c :: rest =>
      if c = '0' then afterZeros? c rest
      else if c.isDigit then some (c :: rest)
      else none

/-- A fraction of zeros, one at least, adds nothing to a whole number. -/
def withoutZeroFraction (text : List Char) : List Char :=
  let zeros := (text.dropWhile (· ≠ '.')).tail
  if zeros.isEmpty ∨ ¬zeros.all (· = '0') then text else text.takeWhile (· ≠ '.')

/-- A minus or none, and digits; a zero comes first only if it is alone. -/
def isCanonicalInteger (text : List Char) : Bool :=
  let digits := if text.head? = some '-' then text.tail else text
  digits = ['0'] || (digits.all Char.isDigit && digits.head?.any (· ≠ '0'))

/-- The canonical text of the whole number that a text stands for. A plus, zeros in front, a fraction
of zeros and underscores that set digits apart may be written with it. -/
def canonicalInteger? (text : List Char) : Option (List Char) :=
  let (negative, rest) := sign text
  let written := (withoutLeadingZeros? rest).bind fun digits =>
    withoutMarks? (withoutZeroFraction (if negative then '-' :: digits else digits))
  written.filter isCanonicalInteger

def integerOf (text : List Char) : Int :=
  let (negative, digits) := sign text
  signed negative (valueOf digits)

def integer? (text : List Char) : Option Int := (canonicalInteger? text).map integerOf

end RoundScoring.Decimal.Numeral
