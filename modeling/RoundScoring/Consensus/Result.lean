import RoundScoring.Consensus.Pass
import RoundScoring.Sorting

/-!
The consensus of a round: the level of every loss key, and the score, coefficient and deviation of
every participant. Reputers that take no part are listed, and nothing else depends on them. Read
back as losses, the levels are a bundle like the ones they came from.
-/

namespace RoundScoring

structure Consensus (R : Type) where
  levels : Table LossKey R
  scores : Table Address R
  coefficients : Table Address R
  deviations : Table Address R
  excluded : List Address
  passes : Nat

namespace Consensus

variable {R : Type}

def participants (consensus : Consensus R) : List Address := consensus.scores.keys

variable [Scalar R]

/-- Stake may be anything in a report, but participants must have some and none below zero. The
order in which stakes are added is not modelled. -/
def checkStakes (participants : List (Report R)) : Except (Fault R) Unit :=
  if ∃ report ∈ participants, report.stake < 0 then .error .negativeStake
  else if (participants.map Report.stake).sum ≤ 0 then .error .noStake
  else .ok ()

/-- What the last coefficients of a round amount to. A score is a deviation below zero. -/
def conclude (levels : List (LossKey × R)) (settled : List (Report R)) (excluded : List Address)
    (passes : Nat) : Consensus R where
  levels := .ofList levels
  scores := .ofList (settled.map fun report => (report.reputer, 0 - deviation levels report))
  coefficients := .ofList (settled.map fun report => (report.reputer, report.coefficient))
  deviations := .ofList (settled.map fun report => (report.reputer, deviation levels report))
  excluded := excluded
  passes := passes

/-- Nothing is asked of the stakes when nobody takes part. -/
def aggregate (config : Config R) (reports : List (Report R)) :
    Except (Fault R) (Consensus R) := do
  let participants := reports.filter Report.takesPart
  let excluded := (reports.filter (!·.takesPart)).map Report.reputer
  if participants.isEmpty then
    return conclude [] [] excluded 0
  checkStakes participants
  let keys := lossKeys participants
  let (settled, passes) ← settle config keys config.maxPasses
    (participants.map (Report.clamped config)) 0
  let levels ← levelsOf keys settled
  return conclude levels settled excluded passes

/-- A report as it comes into the next round: with the coefficient it was given, if any. -/
def Report.carried (consensus : Consensus R) (report : Report R) : Report R :=
  { report with
    coefficient := (consensus.coefficients.get? report.reputer).getD report.coefficient }

/-- Rounds over the same losses and stakes, each with the coefficients of the one before. -/
def successive (config : Config R) :
    (rounds : Nat) → List (Report R) → Except (Fault R) (List (Consensus R))
  | 0, _ => .ok []
  | rounds + 1, reports => do
      let consensus ← aggregate config reports
      let later ← successive config rounds (reports.map (Report.carried consensus))
      return consensus :: later

/-- The levels as losses, which may be too large for a number. -/
def losses (consensus : Consensus R) : Except (Fault R) (List (LossKey × R)) :=
  consensus.levels.entries.mapM fun (key, level) =>
    match Scalar.powerOfTen? level with
    | some loss => .ok (key, loss)
    | none => .error .overflow

def workerEntries (losses : List (LossKey × R)) (category : WorkerCategory) :
    List (WorkerLoss R) :=
  losses.filterMap fun (key, loss) =>
    if key.category = .perWorker category then key.worker.map fun worker => ⟨worker.text, loss⟩
    else none

/-- The bundle that a reputer in full agreement with the consensus would have sent. Its workers are
in the order of their keys, whatever the order of the levels. -/
def toBundle (consensus : Consensus R) (topic : Int) : Except (Fault R) (Bundle R) := do
  let losses ← consensus.losses
  let ordered := sortedBy (·.1.place) losses
  return {
    topic := topic
    combined := losses.lookup (.whole .combined)
    naive := losses.lookup (.whole .naive)
    oneOutInferer := workerEntries ordered .oneOutInferer
    oneOutForecaster := workerEntries ordered .oneOutForecaster
    oneInForecaster := workerEntries ordered .oneInForecaster }

end Consensus
end RoundScoring
