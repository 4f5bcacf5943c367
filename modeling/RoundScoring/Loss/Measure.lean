import RoundScoring.Fault

/-!
How losses become scores. Losses are compared by their decimal logarithms, so that losses of
different magnitude weigh alike: a score is a difference of logarithms, and a consensus is a
weighted mean of them.
-/

namespace RoundScoring.Loss

open Scalar

variable {R : Type} [Scalar R]

def requireLoss (role : LossRole) (loss : R) : Except (Fault R) Unit :=
  if IsLoss loss then .ok () else .error (.lossOutsideDomain role loss)

/-- By how much holding a participant out raises the loss: above zero when the participant helped. -/
def workerScore (loss heldOut : R) : Except (Fault R) R := do
  requireLoss .full loss
  requireLoss .heldOut heldOut
  return log10 heldOut - log10 loss

/-- The mean of the logarithms of some losses, each by its share of the total weight. The order in
which weights and terms are added is not modelled. -/
def weightedLogLoss (weights losses : List R) : Except (Fault R) R :=
  if weights.length ≠ losses.length then .error (.unevenPairs weights.length losses.length)
  else if weights = [] then .error .noPairs
  else if ∃ w ∈ weights, w < 0 then .error .negativeWeight
  else if weights.sum ≤ 0 then .error .noWeight
  else if ∃ x ∈ losses, ¬IsLoss x then .error .lossNotPositive
  else .ok (List.zipWith (fun w x => w / weights.sum * log10 x) weights losses).sum

/-- The share of its own effect that a forecaster is credited with among this many: all of it when
alone, and half as much with each other one. -/
def uniqueness (forecasters : R) : Except (Fault R) R :=
  if forecasters ≤ 1 then .ok 1
  else match powerOfTwo? (forecasters - 1) with
    | some halvings => .ok (1 / halvings)
    | none => .error .overflow

/-- A forecaster's score with the others absent and its score with the others present, mixed in the
proportion of the factor. -/
def forecastScore (oneIn oneOut factor : R) : Except (Fault R) R :=
  if 0 ≤ factor ∧ factor ≤ 1 then .ok (factor * oneIn + (1 - factor) * oneOut)
  else .error (.blendOutsideRange factor)

theorem workerScore_of_isLoss {loss heldOut : R} (full : IsLoss loss) (held : IsLoss heldOut) :
    workerScore loss heldOut = .ok (log10 heldOut - log10 loss) := by
  unfold workerScore requireLoss
  rw [if_pos full, if_pos held]
  rfl

end RoundScoring.Loss
