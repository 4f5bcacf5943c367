import RoundScoring.Consensus.Config
import RoundScoring.Loss.Key
import RoundScoring.Proofs.Exact.Scalar

/-!
What a consensus is, in real numbers and apart from how reports are stored. A panel says for each of
finitely many participants what it has at stake and what it lost under the keys it reported; levels,
deviations, agreement and the passes over coefficients are functions of that. A participant is here
no more than an index, so nothing depends on an order among participants.
-/

namespace RoundScoring.Consensus

structure Panel (ι : Type) where
  stake : ι → ℝ
  keys : ι → Finset LossKey
  loss : ι → LossKey → ℝ

namespace Panel

noncomputable section

variable {ι : Type} [Fintype ι] (panel : Panel ι) (config : Config ℝ)

def reporters (key : LossKey) : Finset ι := {i | key ∈ panel.keys i}

/-- How much each participant is heard under a key: by stake and coefficient, by stake alone where
that comes to nothing among the reporters of the key, and alike where their stakes do too. -/
def weight (c : ι → ℝ) (key : LossKey) (i : ι) : ℝ :=
  if ∑ j ∈ panel.reporters key, panel.stake j * c j ≠ 0 then panel.stake i * c i
  else if ∑ j ∈ panel.reporters key, panel.stake j ≠ 0 then panel.stake i
  else 1

/-- The weighted mean of the logarithms of the losses reported under a key. -/
def level (c : ι → ℝ) (key : LossKey) : ℝ :=
  (∑ i ∈ panel.reporters key, panel.weight c key i * Scalar.log10 (panel.loss i key)) /
    ∑ i ∈ panel.reporters key, panel.weight c key i

/-- The root mean square of a participant's distances to the levels, over its own keys. -/
def deviation (c : ι → ℝ) (i : ι) : ℝ :=
  √((∑ key ∈ panel.keys i, (Scalar.log10 (panel.loss i key) - panel.level c key) ^ 2) /
    (panel.keys i).card)

def agreement (c : ι → ℝ) (i : ι) : ℝ := config.tolerance / (panel.deviation c i + config.tolerance)

/-- The nearest coefficient within the range. -/
def within (x : ℝ) : ℝ := max config.minCoefficient (min x config.maxCoefficient)

/-- A damped step towards the agreement, relative to the best one, and back into the range. -/
def stepped (c : ι → ℝ) (i : ι) : ℝ :=
  within config ((1 - config.damping) * c i +
    config.damping * (panel.agreement config c i / ⨆ j, panel.agreement config c j))

/-- A step, and all coefficients scaled alike so that the greatest is the upper end of the range. -/
def pass (c : ι → ℝ) (i : ι) : ℝ :=
  if 0 < ⨆ j, panel.stepped config c j then
    panel.stepped config c i * (config.maxCoefficient / ⨆ j, panel.stepped config c j)
  else panel.stepped config c i

/-- The coefficients after some passes, from the priors brought into the range. -/
def coefficientsAfter (prior : ι → ℝ) (passes : ℕ) : ι → ℝ :=
  (panel.pass config)^[passes] fun i => within config (prior i)

/-- The greatest change of a coefficient in the pass that follows the first few. -/
def change (prior : ι → ℝ) (passes : ℕ) : ℝ :=
  ⨆ i, |panel.coefficientsAfter config prior (passes + 1) i -
    panel.coefficientsAfter config prior passes i|

open scoped Classical in
/-- The number of the first pass whose change is below the threshold, or as many as are allowed. -/
def passes (prior : ι → ℝ) : ℕ :=
  if found : ∃ k < config.maxPasses, panel.change config prior k < config.convergenceThreshold then
    Nat.find found + 1
  else config.maxPasses

def coefficients (prior : ι → ℝ) : ι → ℝ :=
  panel.coefficientsAfter config prior (panel.passes config prior)

end

end Panel
end RoundScoring.Consensus
