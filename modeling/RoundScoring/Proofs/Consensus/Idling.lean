import RoundScoring.Proofs.Consensus.Definition
import RoundScoring.Proofs.Consensus.Thinning

/-!
What a participant without a stake can do. It has no weight under any key that somebody with a stake
reports, and yet it may move the level there: agreement is relative to the best one and coefficients to
the greatest, whoever has them (`idle_participant_moves_a_level`). This is the only way. Levels stay
between losses that have a stake behind them, and they stay what they are when the participant is
removed and the figures that all participants share do not change.
-/

namespace RoundScoring.Consensus

open Scalar

section Places

/-- Where an element of a list stands after another was put in. -/
def skip (place j : ℕ) : ℕ := if j < place then j else j + 1

end Places

section Rounds

variable {config : Config ℝ} {reports front back : List (Report ℝ)} {idle : Report ℝ} {key : LossKey}

end Rounds

section Bystander

variable {ι : Type} [Fintype ι]

namespace Panel

section Single

variable {panel : Panel ι} {key : LossKey}

variable (single : ∀ i, panel.keys i = {key})

include single

end Single

end Panel

noncomputable def Report.power (payload : UInt8) (stake exponent : ℕ) : Report ℝ :=
  .lone payload stake (10 ^ exponent : ℕ) 1

noncomputable def powers {n : ℕ} (payload : Fin n → UInt8) (stake exponent : Fin n → ℕ) (i : Fin n) :
    Report ℝ := .power (payload i) (stake i) (exponent i)

section Powers

variable {n : ℕ} (payload : Fin n → UInt8) {stake exponent : Fin n → ℕ} {level best : ℝ}

end Powers

end Bystander
end RoundScoring.Consensus
