import RoundScoring.Proofs.Consensus.Passes

/-!
A panel without some of those who have nothing at stake. Under a key that somebody with a stake
reports, only stakes carry weight, so a level is what the coefficients of those with a stake make it,
up to a factor that they share. All else by which the others could be felt are three figures that a
panel has in common: the best agreement, the greatest coefficient before scaling, and the number of
passes. Where leaving them out changes none of the three, it changes no such level.
-/

namespace RoundScoring.Consensus.Panel

variable {ι κ : Type} [Fintype ι] [Fintype κ]

section Backing

variable {panel : Panel ι} {c : ι → ℝ} {key : LossKey} {bound : ℝ}

theorem le_level (stake_nonneg : ∀ i, 0 ≤ panel.stake i) (nonneg : ∀ i, 0 ≤ c i)
    (reported : (panel.reporters key).Nonempty)
    (above : ∀ i ∈ panel.reporters key, panel.weight c key i ≠ 0 →
      bound ≤ Scalar.log10 (panel.loss i key)) : bound ≤ panel.level c key := by
  unfold level
  rw [le_div_iff₀ (panel.sum_weight_pos stake_nonneg nonneg reported), Finset.mul_sum]
  refine Finset.sum_le_sum fun i inside => ?_
  by_cases nothing : panel.weight c key i = 0
  · simp [nothing]
  · rw [mul_comm]
    exact mul_le_mul_of_nonneg_left (above i inside nothing)
      (panel.weight_nonneg stake_nonneg nonneg key i)

theorem level_le (stake_nonneg : ∀ i, 0 ≤ panel.stake i) (nonneg : ∀ i, 0 ≤ c i)
    (reported : (panel.reporters key).Nonempty)
    (below : ∀ i ∈ panel.reporters key, panel.weight c key i ≠ 0 →
      Scalar.log10 (panel.loss i key) ≤ bound) : panel.level c key ≤ bound := by
  unfold level
  rw [div_le_iff₀ (panel.sum_weight_pos stake_nonneg nonneg reported), Finset.mul_sum]
  refine Finset.sum_le_sum fun i inside => ?_
  by_cases nothing : panel.weight c key i = 0
  · simp [nothing]
  · rw [mul_comm bound]
    exact mul_le_mul_of_nonneg_left (below i inside nothing)
      (panel.weight_nonneg stake_nonneg nonneg key i)

variable (panel) in
def Backed (key : LossKey) : Prop := ∃ i ∈ panel.reporters key, 0 < panel.stake i

variable (panel c key) in
/-- What a stake is multiplied by under a backed key. -/
noncomputable def heard (i : ι) : ℝ :=
  if ∑ j ∈ panel.reporters key, panel.stake j * c j ≠ 0 then c i else 1

namespace Backed

theorem nonempty (backed : panel.Backed key) : (panel.reporters key).Nonempty :=
  backed.imp fun _ both => both.1

/-- The last rule of weights, which counts heads, is never reached. -/
theorem weight_eq (backed : panel.Backed key) (stake_nonneg : ∀ i, 0 ≤ panel.stake i) (i : ι) :
    panel.weight c key i = panel.stake i * panel.heard c key i := by
  have staked : 0 < ∑ j ∈ panel.reporters key, panel.stake j :=
    Finset.sum_pos' (fun j _ => stake_nonneg j) backed
  unfold weight heard
  split
  next => rfl
  next => rw [if_pos staked.ne', mul_one]

end Backed

variable (panel) (config : Config ℝ)

end Backing

/-- A panel is another without some participants who have nothing at stake. -/
structure Thinned (stays : κ → ι) (fewer : Panel κ) (panel : Panel ι) : Prop where
  injective : Function.Injective stays
  stake : ∀ j, fewer.stake j = panel.stake (stays j)
  keys : ∀ j, fewer.keys j = panel.keys (stays j)
  loss : ∀ j, fewer.loss j = panel.loss (stays j)
  unstaked : ∀ i, i ∉ Set.range stays → panel.stake i = 0
  stake_nonneg : ∀ i, 0 ≤ panel.stake i

/-- Up to a factor, those with something at stake have the same coefficients in both panels. -/
def InProportion (stays : κ → ι) (fewer : Panel κ) (c : ι → ℝ) (c' : κ → ℝ) : Prop :=
  ∃ factor, 0 < factor ∧ ∀ j, 0 < fewer.stake j → c (stays j) = factor * c' j

noncomputable section

/-- The best agreement in the pass that follows the first few. -/
def bestAfter (panel : Panel ι) (config : Config ℝ) (prior : ι → ℝ) (k : ℕ) : ℝ :=
  ⨆ i, panel.agreement config (panel.coefficientsAfter config prior k) i

/-- The greatest coefficient in the pass that follows the first few, before it is scaled. -/
def topAfter (panel : Panel ι) (config : Config ℝ) (prior : ι → ℝ) (k : ℕ) : ℝ :=
  ⨆ i, panel.stepped config (panel.coefficientsAfter config prior k) i

end

namespace Thinned

variable {stays : κ → ι} {fewer : Panel κ} {panel : Panel ι} {config : Config ℝ} {c prior : ι → ℝ}
  {c' prior' : κ → ℝ} {key : LossKey}

omit [Fintype ι] [Fintype κ] in
theorem fewer_nonneg (thinned : Thinned stays fewer panel) (j : κ) : 0 ≤ fewer.stake j := by
  rw [thinned.stake]
  exact thinned.stake_nonneg _

theorem mem_reporters (thinned : Thinned stays fewer panel) {j : κ} :
    j ∈ fewer.reporters key ↔ stays j ∈ panel.reporters key := by
  simp only [reporters, Finset.mem_filter_univ, thinned.keys]

theorem sum_stake_mul (thinned : Thinned stays fewer panel) (key : LossKey) (g : ι → ℝ) :
    ∑ i ∈ panel.reporters key, panel.stake i * g i =
      ∑ j ∈ fewer.reporters key, fewer.stake j * g (stays j) := by
  symm
  refine Finset.sum_of_injOn stays thinned.injective.injOn
    (fun j inside => thinned.mem_reporters.mp inside) (fun i inside out => ?_)
    fun j _ => by rw [thinned.stake]
  have left : i ∉ Set.range stays := by
    rintro ⟨j, rfl⟩
    exact out ⟨j, thinned.mem_reporters.mpr inside, rfl⟩
  rw [thinned.unstaked i left, zero_mul]

theorem backed (thinned : Thinned stays fewer panel) (backed : fewer.Backed key) :
    panel.Backed key := by
  obtain ⟨j, reports, staked⟩ := backed
  exact ⟨stays j, thinned.mem_reporters.mp reports, thinned.stake j ▸ staked⟩

omit [Fintype ι] in
theorem sum_stake_mul_of_inProportion (thinned : Thinned stays fewer panel) {factor : ℝ}
    (alike : ∀ j, 0 < fewer.stake j → c (stays j) = factor * c' j) (key : LossKey) (g : κ → ℝ) :
    ∑ j ∈ fewer.reporters key, fewer.stake j * (c (stays j) * g j) =
      factor * ∑ j ∈ fewer.reporters key, fewer.stake j * (c' j * g j) := by
  rw [Finset.mul_sum]
  refine Finset.sum_congr rfl fun j _ => ?_
  rcases (thinned.fewer_nonneg j).eq_or_lt with nothing | staked
  · simp [← nothing]
  · rw [alike j staked]
    ring

theorem level (thinned : Thinned stays fewer panel) (alike : InProportion stays fewer c c')
    (backed : fewer.Backed key) : panel.level c key = fewer.level c' key := by
  obtain ⟨factor, positive, alike⟩ := alike
  have listened : ∑ i ∈ panel.reporters key, panel.stake i * c i =
      factor * ∑ j ∈ fewer.reporters key, fewer.stake j * c' j := by
    rw [thinned.sum_stake_mul]
    simpa using thinned.sum_stake_mul_of_inProportion alike key fun _ => 1
  unfold Panel.level
  simp only [(thinned.backed backed).weight_eq thinned.stake_nonneg,
    backed.weight_eq thinned.fewer_nonneg, mul_assoc]
  rw [thinned.sum_stake_mul, thinned.sum_stake_mul]
  unfold heard
  rw [listened]
  by_cases silent : ∑ j ∈ fewer.reporters key, fewer.stake j * c' j = 0
  · simp only [silent, mul_zero, ne_eq, not_true_eq_false, if_false, thinned.loss]
  · have both : factor * ∑ j ∈ fewer.reporters key, fewer.stake j * c' j ≠ 0 :=
      mul_ne_zero positive.ne' silent
    have scaled := thinned.sum_stake_mul_of_inProportion alike key
    have total := scaled fun _ => 1
    simp only [mul_one] at total
    simp only [if_pos both, ne_eq, silent, not_false_eq_true, if_true, ← thinned.loss]
    rw [scaled, total, mul_div_mul_left _ _ positive.ne']

omit [Fintype ι] [Fintype κ] in
theorem inProportion_of_eq (same : ∀ j, 0 < fewer.stake j → c (stays j) = c' j) :
    InProportion stays fewer c c' :=
  ⟨1, zero_lt_one, fun j staked => by rw [same j staked, one_mul]⟩

/-- All keys of a participant with a stake are backed, so its deviation is the same as well. -/
theorem deviation (thinned : Thinned stays fewer panel) (alike : InProportion stays fewer c c')
    {j : κ} (staked : 0 < fewer.stake j) :
    panel.deviation c (stays j) = fewer.deviation c' j := by
  unfold Panel.deviation
  rw [← thinned.keys, ← thinned.loss]
  congr 2
  refine Finset.sum_congr rfl fun key own => ?_
  rw [thinned.level alike ⟨j, (fewer.mem_reporters).mpr own, staked⟩]

theorem agreement (thinned : Thinned stays fewer panel) (alike : InProportion stays fewer c c')
    {j : κ} (staked : 0 < fewer.stake j) :
    panel.agreement config c (stays j) = fewer.agreement config c' j := by
  unfold Panel.agreement
  rw [thinned.deviation alike staked]

theorem stepped (thinned : Thinned stays fewer panel)
    (same : ∀ j, 0 < fewer.stake j → c (stays j) = c' j)
    (best : ⨆ i, panel.agreement config c i = ⨆ j, fewer.agreement config c' j) {j : κ}
    (staked : 0 < fewer.stake j) : panel.stepped config c (stays j) = fewer.stepped config c' j := by
  unfold Panel.stepped
  rw [thinned.agreement (inProportion_of_eq same) staked, best, same j staked]

theorem pass (thinned : Thinned stays fewer panel)
    (same : ∀ j, 0 < fewer.stake j → c (stays j) = c' j)
    (best : ⨆ i, panel.agreement config c i = ⨆ j, fewer.agreement config c' j)
    (top : ⨆ i, panel.stepped config c i = ⨆ j, fewer.stepped config c' j) {j : κ}
    (staked : 0 < fewer.stake j) : panel.pass config c (stays j) = fewer.pass config c' j := by
  unfold Panel.pass
  rw [thinned.stepped same best staked, top]

theorem coefficientsAfter (thinned : Thinned stays fewer panel)
    (priors : ∀ j, prior (stays j) = prior' j) (k : ℕ)
    (best : ∀ l < k, panel.bestAfter config prior l = fewer.bestAfter config prior' l)
    (top : ∀ l < k, panel.topAfter config prior l = fewer.topAfter config prior' l) {j : κ}
    (staked : 0 < fewer.stake j) :
    panel.coefficientsAfter config prior k (stays j) = fewer.coefficientsAfter config prior' k j := by
  induction k generalizing j with
  | zero => exact congrArg (within config) (priors j)
  | succ k ih =>
    have same := fun j staked => ih (fun l early => best l (early.trans (Nat.lt_succ_self k)))
      (fun l early => top l (early.trans (Nat.lt_succ_self k))) (j := j) staked
    rw [coefficientsAfter_succ, coefficientsAfter_succ]
    exact thinned.pass same (best k (Nat.lt_succ_self k)) (top k (Nat.lt_succ_self k)) staked

end Thinned
end RoundScoring.Consensus.Panel
