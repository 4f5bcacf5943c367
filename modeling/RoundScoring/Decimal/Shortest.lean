import RoundScoring.Decimal.Basic

/-!
The shortest decimal that reads back as a number: the fewest digits that do, and of those the
nearest. Each count of digits leaves two candidates, the grid points around the exact value; both
are read back, so the choice is right by its own definition.

Messages write such a decimal in positions while its first digit stands between `10 ^ -4` and
`10 ^ 15`, and with an exponent elsewhere.
-/

namespace RoundScoring.Decimal

open Binary64 (content ofQuotient)

def ReadsBack (d : Decimal) (x : Float) : Prop :=
  let (numerator, denominator) := inUnits (d.digits, 1) (-d.exponent)
  ofQuotient false numerator denominator = x

instance (d : Decimal) (x : Float) : Decidable (ReadsBack d x) := by
  unfold ReadsBack; infer_instance

/-- The grid points around a value, the nearer one first and the even one when they are equally
near. -/
def around (value : Nat × Nat) (unit : Int) : List Decimal :=
  let (numerator, denominator) := inUnits value unit
  let below := numerator / denominator
  let remainder := numerator % denominator
  let lower : Decimal := ⟨below, unit⟩
  let upper : Decimal := ⟨below + 1, unit⟩
  if remainder = 0 then [lower]
  else if 2 * remainder < denominator ∨ 2 * remainder = denominator ∧ below % 2 = 0 then
    [lower, upper]
  else [upper, lower]

/-- Tries `remaining` ever finer grids and settles for the next one after them. -/
def shortestFrom (value : Nat × Nat) (x : Float) : (remaining : Nat) → (unit : Int) → Decimal
  | 0, unit => (around value unit).headD ⟨0, 0⟩
  | remaining + 1, unit =>
      match (around value unit).find? (ReadsBack · x) with
      | some found => found
      | none => shortestFrom value x remaining (unit - 1)

/-- Seventeen digits always read back. The first grid holds the next power of ten alone, so a number
just below it is not left with a zero as its last digit. -/
def shortest (value : Nat × Nat) : Decimal :=
  if value.1 = 0 then ⟨0, 0⟩
  else shortestFrom value (ofQuotient false value.1 value.2) 17 (leadingOf value + 1)

def shortestText (x : Float) : String :=
  match content x with
  | .notANumber => "nan"
  | .infinite negative => if negative then "-inf" else "inf"
  | .finite negative significand exponent =>
      let d := shortest (quotient significand exponent)
      let text := if -4 ≤ d.leading ∧ d.leading < 16 then d.positional else d.scientific
      if negative then "-" ++ text else text

end RoundScoring.Decimal
