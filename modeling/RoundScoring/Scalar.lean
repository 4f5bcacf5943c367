/-!
The numbers that scoring computes with. A scoring rule is written once, over any `Scalar`: run on
binary64 numbers it keeps their special values, read over an ordered field it is the rule in exact
arithmetic.

Comparisons are the only tests the rules use, so a value that is not a number fails each of them.
`larger`, `smaller` and what is built on them hand such a value on instead of dropping it.

A sum stands for its terms added in some order, here one by one from the last. On binary64 numbers
another order may change its last places, and whether it is finite where it is close to the largest
number; which order a running system takes is not modelled.
-/

namespace RoundScoring

class Scalar (R : Type) extends
    Zero R, One R, NatCast R, OfScientific R, Add R, Sub R, Mul R, Div R, LE R, LT R where
  decidableLE : DecidableLE R
  decidableLT : DecidableLT R
  isFinite : R → Bool
  sqrt : R → R
  log10 : R → R
  /-- The result is `none` when it is beyond the largest number; so too for powers of ten. -/
  powerOfTwo? : R → Option R
  powerOfTen? : R → Option R

namespace Scalar

-- Reals and binary64 numbers have arithmetic of their own, which is to be found first.
attribute [instance (100)] toZero toOne toNatCast toOfScientific toAdd toSub toMul toDiv toLE toLT

variable {R : Type} [Scalar R]

instance : DecidableLE R := decidableLE
instance : DecidableLT R := decidableLT

/-- A loss counts only when it is finite and above zero: elsewhere it has no logarithm. -/
def IsLoss (x : R) : Prop := isFinite x ∧ 0 < x

instance (x : R) : Decidable (IsLoss x) := by
  unfold IsLoss
  infer_instance

/-- The sum of both is returned when they do not compare, which keeps a value that is no number. -/
def larger (x y : R) : R :=
  if x ≤ y then y else if y ≤ x then x else x + y

def smaller (x y : R) : R :=
  if x ≤ y then x else if y ≤ x then y else x + y

/-- The lower end is applied first, so an upper end below it would win. -/
def clamp (low high x : R) : R := smaller (larger x low) high

def absolute (x : R) : R := if x < 0 then 0 - x else x

/-- The greatest of some numbers, and zero of none. -/
def greatest : List R → R
  | [] => 0
  | x :: rest => rest.foldl larger x

def rootMeanSquare (xs : List R) : R :=
  sqrt ((xs.map fun x => x * x).sum / (xs.length : R))

@[simp] theorem greatest_nil : greatest ([] : List R) = 0 := rfl

@[simp] theorem greatest_cons (x : R) (rest : List R) :
    greatest (x :: rest) = rest.foldl larger x := rfl

end Scalar
end RoundScoring
