import RoundScoring.Decimal.Basic

/-!
Numbers rounded for display: with ten places behind the point, or with ten significant digits and an
exponent. The exact binary value is rounded, a half going to the even neighbour, and a result of
zero carries no sign.
-/

namespace RoundScoring.Decimal

open Binary64 (content)

/-- The nearest whole number to a quotient, a half going to the even one. -/
def roundHalfEven (value : Nat × Nat) : Nat :=
  let whole := value.1 / value.2
  match compare (2 * (value.1 % value.2)) value.2 with
  | .lt => whole
  | .eq => whole + whole % 2
  | .gt => whole + 1

theorem roundHalfEven_nearest (n : Nat) {d : Nat} (positive : 0 < d) :
    2 * n ≤ (2 * roundHalfEven (n, d) + 1) * d ∧ 2 * roundHalfEven (n, d) * d ≤ 2 * n + d := by
  have split : d * (n / d) + n % d = n := Nat.div_add_mod n d
  have rest : n % d < d := Nat.mod_lt n positive
  have whole : 2 * (n / d) * d = 2 * (d * (n / d)) := by rw [Nat.mul_assoc, Nat.mul_comm d]
  have above : 2 * (n / d + 1) * d = 2 * (n / d) * d + 2 * d := by
    rw [Nat.mul_add, Nat.add_mul]
  unfold roundHalfEven
  dsimp only
  split
  next less =>
    have low : 2 * (n % d) < d := Nat.compare_eq_lt.mp less
    rw [Nat.add_mul]
    omega
  next same =>
    have half : 2 * (n % d) = d := Nat.compare_eq_eq.mp same
    have even : n / d + n / d % 2 = n / d ∨ n / d + n / d % 2 = n / d + 1 := by omega
    rcases even with stays | moves
    · rw [stays, Nat.add_mul]
      omega
    · rw [moves, Nat.add_mul, above]
      omega
  next more =>
    have high : d < 2 * (n % d) := Nat.compare_eq_gt.mp more
    rw [Nat.add_mul, above]
    omega

theorem even_roundHalfEven_of_half {n d : Nat} (half : 2 * (n % d) = d) :
    roundHalfEven (n, d) % 2 = 0 := by
  have same : compare (2 * (n % d)) d = .eq := Nat.compare_eq_eq.mpr half
  unfold roundHalfEven
  dsimp only
  rw [same]
  change (n / d + n / d % 2) % 2 = 0
  omega

example : [(1, 2), (3, 2), (5, 2), (7, 2)].map roundHalfEven = [0, 2, 2, 4] := by decide

def toPlaces (places : Nat) (value : Nat × Nat) : Decimal :=
  ⟨roundHalfEven (inUnits value (-places)), -places⟩

/-- Rounding up to the next power of ten adds a digit, which is taken off again. -/
def toSignificant (digits : Nat) (value : Nat × Nat) : Decimal :=
  if value.1 = 0 then ⟨0, 0⟩
  else
    let unit := leadingOf value + 1 - digits
    let rounded := roundHalfEven (inUnits value unit)
    if rounded = powerOfTen digits then ⟨powerOfTen (digits - 1), unit + 1⟩ else ⟨rounded, unit⟩

private def display (write : Nat × Nat → String × Bool) (x : Float) : String :=
  match content x with
  | .notANumber => "nan"
  | .infinite negative => if negative then "-inf" else "inf"
  | .finite negative significand exponent =>
      let (text, isZero) := write (quotient significand exponent)
      if negative && !isZero then "-" ++ text else text

def fixedText (x : Float) : String :=
  display (fun value =>
    let rounded := toPlaces 10 value
    (rounded.positional, rounded.digits = 0)) x

def scientificText (x : Float) : String :=
  display (fun value =>
    let rounded := toSignificant 10 value
    (if rounded.digits = 0 then "0.000000000e+00" else rounded.scientific, rounded.digits = 0)) x

end RoundScoring.Decimal
