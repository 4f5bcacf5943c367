import RoundScoring.Consensus.Config
import RoundScoring.Keeper
import RoundScoring.Loss.Bundle
import RoundScoring.Loss.Measure

/-!
The workers' part of a round, from the losses of the network. An inferer is scored by what the
network loses without it; a forecaster by that and by what it brings to the naive network, mixed by
how many forecasters there are. Both are paired by account.

A `strict` network bundle must have the losses that scores need. One that is not strict may lack
them, and the workers concerned are left out. Scores are `none` where nobody is scored, and then the
ledger is not touched.
-/

namespace RoundScoring.Round

variable {R : Type} [Scalar R]

/-- A loss of the whole network, which a strict bundle must have. -/
def networkLoss (strict : Bool) (network : Bundle R) (category : WholeCategory) :
    Except (Fault R) (Option R) :=
  match network.whole category with
  | some loss => .ok (some loss)
  | none => if strict then .error (.missingLoss category) else .ok none

def inferenceScores (policy : Policy R) (topic block : Int) (strict : Bool) (network : Bundle R) :
    Except (Fault R) (Option (List (Score R))) := do
  let oneOut ← network.valuesFor policy.required .oneOutInferer
  if oneOut.entries.isEmpty then
    return none
  match ← networkLoss strict network .combined with
  | none => return none
  | some combined =>
      return some (← oneOut.entries.mapM fun (worker, loss) =>
        return ⟨topic, block, worker.text, ← Loss.workerScore combined loss⟩)

/-- The score of one forecaster, or none where it is to be left out. -/
def forecasterScore (topic block : Int) (strict : Bool) (oneOutScores : Table Address R)
    (naive factor : R) (worker : Address) (loss : R) : Except (Fault R) (Option (Score R)) :=
  match oneOutScores.get? worker with
  | none => if strict then .error (.unpairedForecaster worker) else .ok none
  | some oneOutScore => do
      let oneInScore ← Loss.workerScore loss naive
      let score ← Loss.forecastScore oneInScore oneOutScore factor
      return some ⟨topic, block, worker.text, score⟩

def oneOutScores (combined : R) (oneOut : Table Address R) :
    Except (Fault R) (Table Address R) := do
  return .ofList (← oneOut.entries.mapM fun (worker, loss) =>
    return (worker, ← Loss.workerScore combined loss))

/-- All forecasters with a loss of their own alone count towards the factor, paired or not. -/
def forecastScores (policy : Policy R) (topic block : Int) (strict : Bool) (network : Bundle R) :
    Except (Fault R) (Option (List (Score R))) := do
  let oneOut ← network.valuesFor policy.required .oneOutForecaster
  let oneIn ← network.valuesFor policy.required .oneInForecaster
  if oneIn.entries.isEmpty then
    return none
  match ← networkLoss strict network .combined, ← networkLoss strict network .naive with
  | some combined, some naive =>
      let paired ← oneOutScores combined oneOut
      let factor ← Loss.uniqueness (oneOut.size : R)
      let scores ← oneIn.entries.mapM fun (worker, loss) =>
        forecasterScore topic block strict paired naive factor worker loss
      return some (scores.filterMap id)
  | _, _ => return none

def record (kind : ScoreKind) (topic block : Int) :
    Option (List (Score R)) → Keeping R (List (Score R))
  | none => return []
  | some scores => do
      Keeper.transaction (scores.forM (Keeper.insertScore kind topic block))
      return scores

def scoreInferers (policy : Policy R) (topic block : Int) (strict : Bool) (network : Bundle R) :
    Keeping R (List (Score R)) := do
  record .inference topic block (← inferenceScores policy topic block strict network)

def scoreForecasters (policy : Policy R) (topic block : Int) (strict : Bool) (network : Bundle R) :
    Keeping R (List (Score R)) := do
  record .forecast topic block (← forecastScores policy topic block strict network)

end RoundScoring.Round
