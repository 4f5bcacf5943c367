import RoundScoring.Consensus.Config
import RoundScoring.Coverage
import RoundScoring.Loss.Measure

/-!
One pass over the reports of a round. Every loss key gets a level, the mean logarithm of the losses
reported under it, weighted by stake times listening coefficient. A reputer's deviation is the root
mean square of its distances to the levels, over the keys it reported. A pass moves each
coefficient towards the reputer's agreement, relative to the best one, and then scales all of them
so that the greatest stands at the upper end of the range.
-/

namespace RoundScoring.Consensus

open Scalar

variable {R : Type}

structure Report (R : Type) where
  coverage : Coverage R
  stake : R
  coefficient : R

namespace Report

def reputer (report : Report R) : Address := report.coverage.reputer

def lossAt? (report : Report R) (key : LossKey) : Option R := report.coverage.losses.get? key

variable [Scalar R]

/-- Only a reputer with some eligible category and none but proper losses takes part. -/
def takesPart (report : Report R) : Bool :=
  report.coverage.hasEligible && report.coverage.losses.entries.all fun entry => IsLoss entry.2

end Report

/-- The reports that have a loss under a key, each with that loss. -/
def reporters (reports : List (Report R)) (key : LossKey) : List (Report R × R) :=
  reports.filterMap fun report => (report.lossAt? key).map (report, ·)

/-- Every key that is reported, once and in order. -/
def lossKeys (reports : List (Report R)) : OrderedSet LossKey :=
  .ofList (reports.flatMap fun report => report.coverage.losses.keys)

variable [Scalar R]

/-- Stake times coefficient; stake alone when that comes to nothing, and equal weights when there is
no stake either. The order in which they are added is not modelled. -/
def weights (reports : List (Report R)) : List R :=
  let listened := reports.map fun report => report.stake * report.coefficient
  if listened.sum ≤ 0 then
    let stakes := reports.map Report.stake
    if stakes.sum ≤ 0 then reports.map fun _ => 1 else stakes
  else listened

/-- The mean logarithm of the losses under a key. -/
def levelAt (reports : List (Report R)) (key : LossKey) : Except (Fault R) R :=
  let heard := reporters reports key
  Loss.weightedLogLoss (weights (heard.map Prod.fst)) (heard.map Prod.snd)

def levelsOf (keys : OrderedSet LossKey) (reports : List (Report R)) :
    Except (Fault R) (List (LossKey × R)) :=
  keys.toList.mapM fun key => return (key, ← levelAt reports key)

/-- The distance of a report to the levels, over the keys it has a loss under. -/
def deviation (levels : List (LossKey × R)) (report : Report R) : R :=
  rootMeanSquare (levels.filterMap fun (key, level) =>
    (report.lossAt? key).map fun loss => log10 loss - level)

/-- One without deviation, one half at the tolerance, and towards zero far from the levels. -/
def agreement (config : Config R) (deviation : R) : R :=
  config.tolerance / (deviation + config.tolerance)

def Report.clamped (config : Config R) (report : Report R) : Report R :=
  { report with
    coefficient := clamp config.minCoefficient config.maxCoefficient report.coefficient }

/-- The coefficient moved towards a target between zero and one, within the range. -/
def Report.movedTowards (config : Config R) (report : Report R) (target : R) : Report R :=
  { report with
    coefficient := clamp config.minCoefficient config.maxCoefficient
      ((1 - config.damping) * report.coefficient + config.damping * target) }

/-- All coefficients scaled alike, so that the greatest is the upper end of the range. When none is
above zero they stay. -/
def rescaled (config : Config R) (reports : List (Report R)) : List (Report R) :=
  let top := greatest (reports.map Report.coefficient)
  if 0 < top then
    reports.map fun report =>
      { report with coefficient := report.coefficient * (config.maxCoefficient / top) }
  else reports

def pass (config : Config R) (keys : OrderedSet LossKey) (reports : List (Report R)) :
    Except (Fault R) (List (Report R)) := do
  let levels ← levelsOf keys reports
  let rated := reports.map fun report => (report, agreement config (deviation levels report))
  let best := greatest (rated.map Prod.snd)
  return rescaled config (rated.map fun (report, agreed) =>
    report.movedTowards config (agreed / best))

/-- The greatest change of a coefficient between two states of the same reports. -/
def largestChange (before after : List (Report R)) : R :=
  greatest (List.zipWith (fun old new => absolute (new.coefficient - old.coefficient)) before after)

/-- Passes until one changes less than the threshold, and `remaining` of them at most. Returned are
the reports as they stand then, and the number of passes. -/
def settle (config : Config R) (keys : OrderedSet LossKey) :
    (remaining : Nat) → List (Report R) → (done : Nat) → Except (Fault R) (List (Report R) × Nat)
  | 0, reports, done => .ok (reports, done)
  | remaining + 1, reports, done => do
      let moved ← pass config keys reports
      if largestChange reports moved < config.convergenceThreshold then
        return (moved, done + 1)
      else
        settle config keys remaining moved (done + 1)

end RoundScoring.Consensus
