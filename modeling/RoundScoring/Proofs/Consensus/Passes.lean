import RoundScoring.Proofs.Consensus.Aggregate
import RoundScoring.Proofs.Consensus.Levels

/-!
Passes over reports are passes over their panel. One pass does to the coefficients of the reports
what the panel says (`pass_reportsAt`), and passes stop where the panel says (`settle_reportsAt`).
-/

namespace RoundScoring.Consensus

open Scalar

variable {n : ℕ} {report : Fin n → Report ℝ} {keys : OrderedSet LossKey} {c : Fin n → ℝ}

theorem clamp_eq_within (config : Config ℝ) (x : ℝ) :
    clamp config.minCoefficient config.maxCoefficient x = Panel.within config x := by
  have range : config.minCoefficient ≤ config.maxCoefficient := config.min_lt_max.le
  rw [clamp_eq, Panel.within, max_comm, max_min_distrib_left, max_eq_right range]

theorem rescaled_reportsAt (config : Config ℝ) (report : Fin n → Report ℝ) (c : Fin n → ℝ) :
    rescaled config (reportsAt report c) = reportsAt report fun i =>
      if 0 < ⨆ j, c j then c i * (config.maxCoefficient / ⨆ j, c j) else c i := by
  have top : greatest ((reportsAt report c).map Report.coefficient) = ⨆ j, c j := by
    rw [map_reportsAt, greatest_ofFn]
    rfl
  unfold rescaled
  rw [top]
  by_cases positive : 0 < ⨆ j, c j
  · simp only [if_pos positive]
    rw [map_reportsAt]
    rfl
  · simp only [if_neg positive]

theorem pass_reportsAt (config : Config ℝ) (sound : Sound report keys) (nonneg : ∀ i, 0 ≤ c i) :
    pass config keys (reportsAt report c) =
      .ok (reportsAt report ((panelOf report).pass config c)) := by
  set levels := keys.toList.map fun key => (key, (panelOf report).level c key) with leveled
  have rated : ((reportsAt report c).map fun report =>
      (report, agreement config (deviation levels report))) = List.ofFn fun i =>
        ((report i).withCoefficient (c i), (panelOf report).agreement config c i) := by
    rw [map_reportsAt]
    simp only [leveled, deviation_eq sound]
    rfl
  have best : greatest ((List.ofFn fun i => ((report i).withCoefficient (c i),
      (panelOf report).agreement config c i)).map Prod.snd) =
        ⨆ j, (panelOf report).agreement config c j := by
    rw [List.map_ofFn, greatest_ofFn]
    rfl
  have moved : ((List.ofFn fun i => ((report i).withCoefficient (c i),
      (panelOf report).agreement config c i)).map fun (rated, agreed) =>
        rated.movedTowards config (agreed / ⨆ j, (panelOf report).agreement config c j)) =
      reportsAt report ((panelOf report).stepped config c) := by
    rw [List.map_ofFn]
    unfold reportsAt
    congr 1
    funext i
    simp only [Function.comp_apply, Report.movedTowards, clamp_eq_within]
    rfl
  unfold pass
  rw [levelsOf_reportsAt sound nonneg]
  change Except.ok _ = _
  rw [rated, best, moved, rescaled_reportsAt]
  rfl

theorem largestChange_reportsAt (report : Fin n → Report ℝ) (before after : Fin n → ℝ) :
    largestChange (reportsAt report before) (reportsAt report after) =
      ⨆ i, |after i - before i| := by
  unfold largestChange reportsAt
  rw [List.ofFn_eq_map, List.ofFn_eq_map, List.zipWith_map, List.zipWith_self, ← List.ofFn_eq_map,
    greatest_ofFn]
  simp only [absolute_eq_abs]
  rfl

namespace Panel

variable {ι : Type} [Fintype ι] (panel : Panel ι) (config : Config ℝ) (prior : ι → ℝ)

theorem passes_of_stop {k : ℕ} (allowed : k < config.maxPasses)
    (stops : panel.change config prior k < config.convergenceThreshold)
    (goes : ∀ j < k, ¬panel.change config prior j < config.convergenceThreshold) :
    panel.passes config prior = k + 1 := by
  have found : ∃ k < config.maxPasses,
      panel.change config prior k < config.convergenceThreshold := ⟨k, allowed, stops⟩
  unfold passes
  rw [dif_pos found]
  congr 1
  rw [Nat.find_eq_iff]
  exact ⟨⟨allowed, stops⟩, fun j earlier both => goes j earlier both.2⟩

theorem passes_of_go (goes : ∀ j < config.maxPasses,
    ¬panel.change config prior j < config.convergenceThreshold) :
    panel.passes config prior = config.maxPasses := by
  unfold passes
  rw [dif_neg]
  rintro ⟨k, allowed, stops⟩
  exact goes k allowed stops

end Panel

theorem settle_reportsAt (config : Config ℝ) (sound : Sound report keys) (prior : Fin n → ℝ)
    (remaining k : ℕ) (allowed : k + remaining = config.maxPasses)
    (goes : ∀ j < k, ¬(panelOf report).change config prior j < config.convergenceThreshold) :
    settle config keys remaining
        (reportsAt report ((panelOf report).coefficientsAfter config prior k)) k =
      .ok (reportsAt report ((panelOf report).coefficients config prior),
        (panelOf report).passes config prior) := by
  induction remaining generalizing k with
  | zero =>
    have all : (panelOf report).passes config prior = k := by
      refine ((panelOf report).passes_of_go config prior fun j early => goes j ?_).trans ?_ <;> omega
    unfold settle Panel.coefficients
    rw [all]
  | succ remaining ih =>
    have passed := pass_reportsAt config sound
      ((panelOf report).coefficientsAfter_nonneg config prior k)
    rw [← Panel.coefficientsAfter_succ] at passed
    unfold settle
    rw [passed]
    change (if largestChange _ _ < _ then _ else _) = _
    rw [largestChange_reportsAt]
    change (if (panelOf report).change config prior k < _ then _ else _) = _
    by_cases stops : (panelOf report).change config prior k < config.convergenceThreshold
    · rw [if_pos stops]
      have all := (panelOf report).passes_of_stop config prior (by omega) stops goes
      unfold Panel.coefficients
      rw [all]
      rfl
    · rw [if_neg stops]
      refine ih (k + 1) (by omega) fun j earlier => ?_
      rcases Nat.lt_succ_iff_lt_or_eq.mp earlier with before | rfl
      · exact goes j before
      · exact stops

end RoundScoring.Consensus
