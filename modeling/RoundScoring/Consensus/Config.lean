import RoundScoring.Address
import RoundScoring.Scalar

/-!
The parameters of a consensus, and the policy of rounds, which tells besides them what accounts are
read. Settings are any numbers; a config is settings that were found usable and carries what was
found. The checks are comparisons, so a tolerance or a threshold that is no number passes.
-/

namespace RoundScoring

namespace Consensus

inductive ConfigProblem where
  | negativePasses
  | dampingRange
  | toleranceNotPositive
  | coefficientRange
deriving DecidableEq

def ConfigProblem.message : ConfigProblem → String
  | .negativePasses => "max_passes cannot be negative"
  | .dampingRange => "damping must be in [0, 1]"
  | .toleranceNotPositive => "tolerance must be positive"
  | .coefficientRange => "coefficient range must satisfy 0 <= min < max"

structure Settings (R : Type) [Scalar R] where
  /-- How often the coefficients are moved in one round at most. -/
  maxPasses : Int := 3
  /-- How far a pass moves a coefficient towards its target. -/
  damping : R := 0.25
  /-- The deviation at which agreement is one half. -/
  tolerance : R := 0.01
  minCoefficient : R := 0
  maxCoefficient : R := 1
  /-- Passes end when no coefficient moved by this much. -/
  convergenceThreshold : R := 1e-6

structure Config (R : Type) [Scalar R] where
  maxPasses : Nat
  damping : R
  tolerance : R
  minCoefficient : R
  maxCoefficient : R
  convergenceThreshold : R
  damping_nonneg : 0 ≤ damping
  damping_le_one : damping ≤ 1
  tolerance_not_nonpos : ¬tolerance ≤ 0
  min_nonneg : 0 ≤ minCoefficient
  min_lt_max : minCoefficient < maxCoefficient

variable {R : Type} [Scalar R]

/-- The first thing that makes settings unusable, or the config they are. -/
def Settings.accept (settings : Settings R) : Except ConfigProblem (Config R) :=
  if settings.maxPasses < 0 then .error .negativePasses
  else if damping : 0 ≤ settings.damping ∧ settings.damping ≤ 1 then
    if tolerance : settings.tolerance ≤ 0 then .error .toleranceNotPositive
    else if range : 0 ≤ settings.minCoefficient ∧
        settings.minCoefficient < settings.maxCoefficient then
      .ok {
        maxPasses := settings.maxPasses.toNat
        damping := settings.damping
        tolerance := settings.tolerance
        minCoefficient := settings.minCoefficient
        maxCoefficient := settings.maxCoefficient
        convergenceThreshold := settings.convergenceThreshold
        damping_nonneg := damping.1
        damping_le_one := damping.2
        tolerance_not_nonpos := tolerance
        min_nonneg := range.1
        min_lt_max := range.2 }
    else .error .coefficientRange
  else .error .dampingRange

def Config.settings (config : Config R) : Settings R where
  maxPasses := config.maxPasses
  damping := config.damping
  tolerance := config.tolerance
  minCoefficient := config.minCoefficient
  maxCoefficient := config.maxCoefficient
  convergenceThreshold := config.convergenceThreshold

@[simp] theorem accept_settings (config : Config R) : config.settings.accept = .ok config := by
  have passes : ¬(config.maxPasses : Int) < 0 := by omega
  simp [Settings.accept, Config.settings, passes, config.damping_nonneg, config.damping_le_one,
    config.tolerance_not_nonpos, config.min_nonneg, config.min_lt_max]

end Consensus

structure Policy (R : Type) [Scalar R] where
  /-- The human readable part that accounts must have; `none` admits any. -/
  required : Option String
  consensus : Consensus.Config R

structure PolicySettings (R : Type) [Scalar R] where
  required : Option String := some Address.usualHrp
  consensus : Consensus.Settings R := {}

def PolicySettings.accept {R : Type} [Scalar R] (settings : PolicySettings R) :
    Except Consensus.ConfigProblem (Policy R) := do
  return { required := settings.required, consensus := ← settings.consensus.accept }

end RoundScoring
