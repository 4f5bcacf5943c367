import RoundScoring.Proofs.Consensus.Panel

/-!
Where coefficients lie. The range survives a pass, although coefficients are scaled after they were
brought into it: the greatest is at most its upper end, so scaling moves none downwards and none
beyond that end. After a pass the greatest is the upper end itself, unless nothing could move: no
damping, and every coefficient zero.
-/

namespace RoundScoring.Consensus

namespace Config

variable (config : Config ℝ)

theorem tolerance_pos : 0 < config.tolerance := not_le.mp config.tolerance_not_nonpos

theorem max_pos : 0 < config.maxCoefficient := lt_of_le_of_lt config.min_nonneg config.min_lt_max

end Config

namespace Panel

variable {ι : Type} [Fintype ι] (panel : Panel ι) (config : Config ℝ)

theorem le_iSup_of_finite (f : ι → ℝ) (i : ι) : f i ≤ ⨆ j, f j :=
  le_ciSup (Set.finite_range f).bddAbove i

theorem min_le_within (x : ℝ) : config.minCoefficient ≤ within config x := le_max_left _ _

theorem within_le_max (x : ℝ) : within config x ≤ config.maxCoefficient :=
  max_le config.min_lt_max.le (min_le_right _ _)

theorem within_nonneg (x : ℝ) : 0 ≤ within config x :=
  le_trans config.min_nonneg (min_le_within config x)

/-- The range does not lie below zero, so only what is not above zero is brought to zero. -/
theorem nonpos_of_within_nonpos {x : ℝ} (low : within config x ≤ 0) : x ≤ 0 := by
  have inner : min x config.maxCoefficient ≤ 0 := (le_max_right _ _).trans low
  rcases min_le_iff.mp inner with small | impossible
  · exact small
  · exact absurd impossible (not_le.mpr config.max_pos)

theorem agreement_pos (c : ι → ℝ) (i : ι) : 0 < panel.agreement config c i := by
  have apart : 0 ≤ panel.deviation c i := Real.sqrt_nonneg _
  have positive := config.tolerance_pos
  exact div_pos positive (by linarith)

theorem stepped_nonneg (c : ι → ℝ) (i : ι) : 0 ≤ panel.stepped config c i := within_nonneg config _

theorem iSup_stepped_le_max [Nonempty ι] (c : ι → ℝ) :
    ⨆ i, panel.stepped config c i ≤ config.maxCoefficient :=
  ciSup_le fun _ => within_le_max config _

theorem min_le_pass (c : ι → ℝ) (i : ι) : config.minCoefficient ≤ panel.pass config c i := by
  have bounded : config.minCoefficient ≤ panel.stepped config c i := min_le_within config _
  unfold pass
  split
  next positive =>
    have : Nonempty ι := ⟨i⟩
    have widening : 1 ≤ config.maxCoefficient / ⨆ j, panel.stepped config c j :=
      (one_le_div positive).mpr (panel.iSup_stepped_le_max config c)
    exact bounded.trans (le_mul_of_one_le_right (panel.stepped_nonneg config c i) widening)
  next => exact bounded

theorem pass_le_max (c : ι → ℝ) (i : ι) : panel.pass config c i ≤ config.maxCoefficient := by
  unfold pass
  split
  next positive =>
    have share : 0 ≤ config.maxCoefficient / ⨆ j, panel.stepped config c j :=
      (div_pos config.max_pos positive).le
    calc
      _ ≤ (⨆ j, panel.stepped config c j) *
          (config.maxCoefficient / ⨆ j, panel.stepped config c j) :=
        mul_le_mul_of_nonneg_right (le_iSup_of_finite _ i) share
      _ = config.maxCoefficient := mul_div_cancel₀ _ positive.ne'
  next => exact within_le_max config _

theorem exists_best [Nonempty ι] (c : ι → ℝ) :
    ∃ i, panel.agreement config c i / ⨆ j, panel.agreement config c j = 1 := by
  obtain ⟨i, best⟩ := exists_eq_ciSup_of_finite (f := panel.agreement config c)
  exact ⟨i, by rw [← best, div_self (panel.agreement_pos config c i).ne']⟩

theorem still_of_iSup_stepped_nonpos [Nonempty ι] {c : ι → ℝ} (nonneg : ∀ i, 0 ≤ c i)
    (low : ⨆ i, panel.stepped config c i ≤ 0) : config.damping = 0 ∧ ∀ i, c i = 0 := by
  have step_nonpos : ∀ i, (1 - config.damping) * c i +
      config.damping * (panel.agreement config c i / ⨆ j, panel.agreement config c j) ≤ 0 :=
    fun i => nonpos_of_within_nonpos config ((le_iSup_of_finite _ i).trans low)
  have damping_nonneg : 0 ≤ config.damping := config.damping_nonneg
  have rest_nonneg : 0 ≤ 1 - config.damping := sub_nonneg.mpr config.damping_le_one
  have undamped : config.damping = 0 := by
    obtain ⟨i, best⟩ := panel.exists_best config c
    have bound := step_nonpos i
    rw [best, mul_one] at bound
    have kept := mul_nonneg rest_nonneg (nonneg i)
    linarith
  refine ⟨undamped, fun i => le_antisymm ?_ (nonneg i)⟩
  have bound := step_nonpos i
  rw [undamped] at bound
  linarith

theorem iSup_pass_or_still [Nonempty ι] {c : ι → ℝ} (nonneg : ∀ i, 0 ≤ c i) :
    ⨆ i, panel.pass config c i = config.maxCoefficient ∨
      config.damping = 0 ∧ (∀ i, c i = 0) ∧ ∀ i, panel.pass config c i = 0 := by
  by_cases positive : 0 < ⨆ j, panel.stepped config c j
  · left
    obtain ⟨i, top⟩ := exists_eq_ciSup_of_finite (f := panel.stepped config c)
    apply le_antisymm (ciSup_le (panel.pass_le_max config c))
    calc
      config.maxCoefficient = panel.pass config c i := by
        unfold pass
        rw [if_pos positive, top, mul_div_cancel₀ _ positive.ne']
      _ ≤ _ := le_iSup_of_finite _ i
  · right
    have low := not_lt.mp positive
    obtain ⟨undamped, zero⟩ := panel.still_of_iSup_stepped_nonpos config nonneg low
    refine ⟨undamped, zero, fun i => ?_⟩
    unfold pass
    rw [if_neg positive]
    exact le_antisymm ((le_iSup_of_finite _ i).trans low) (panel.stepped_nonneg config c i)

theorem coefficientsAfter_succ (prior : ι → ℝ) (k : ℕ) :
    panel.coefficientsAfter config prior (k + 1) =
      panel.pass config (panel.coefficientsAfter config prior k) :=
  Function.iterate_succ_apply' _ _ _

theorem coefficientsAfter_mem (prior : ι → ℝ) (k : ℕ) (i : ι) :
    config.minCoefficient ≤ panel.coefficientsAfter config prior k i ∧
      panel.coefficientsAfter config prior k i ≤ config.maxCoefficient := by
  cases k with
  | zero => exact ⟨min_le_within config _, within_le_max config _⟩
  | succ k =>
    rw [coefficientsAfter_succ]
    exact ⟨panel.min_le_pass config _ i, panel.pass_le_max config _ i⟩

theorem coefficientsAfter_nonneg (prior : ι → ℝ) (k : ℕ) (i : ι) :
    0 ≤ panel.coefficientsAfter config prior k i :=
  le_trans config.min_nonneg (panel.coefficientsAfter_mem config prior k i).1

theorem change_le (prior : ι → ℝ) (k : ℕ) :
    panel.change config prior k ≤ config.maxCoefficient - config.minCoefficient := by
  refine Real.iSup_le (fun i => ?_) (sub_nonneg.mpr config.min_lt_max.le)
  obtain ⟨low, high⟩ := panel.coefficientsAfter_mem config prior (k + 1) i
  obtain ⟨low', high'⟩ := panel.coefficientsAfter_mem config prior k i
  exact abs_sub_le_of_le_of_le low high low' high'

theorem within_of_mem {x : ℝ} (low : config.minCoefficient ≤ x) (high : x ≤ config.maxCoefficient) :
    within config x = x := by
  unfold within
  rw [min_eq_left high, max_eq_right low]

theorem pass_of_undamped {c : ι → ℝ} (undamped : config.damping = 0)
    (range : ∀ i, config.minCoefficient ≤ c i ∧ c i ≤ config.maxCoefficient)
    (top : ⨆ i, c i = config.maxCoefficient) : panel.pass config c = c := by
  have kept : panel.stepped config c = c := by
    funext i
    unfold stepped
    rw [undamped, sub_zero, one_mul, zero_mul, add_zero]
    exact within_of_mem config (range i).1 (range i).2
  funext i
  unfold pass
  rw [kept, top, if_pos config.max_pos, div_self config.max_pos.ne', mul_one]

theorem coefficientsAfter_of_undamped {prior : ι → ℝ} (undamped : config.damping = 0)
    (range : ∀ i, config.minCoefficient ≤ prior i ∧ prior i ≤ config.maxCoefficient)
    (top : ⨆ i, prior i = config.maxCoefficient) (k : ℕ) :
    panel.coefficientsAfter config prior k = prior := by
  induction k with
  | zero =>
    funext i
    exact within_of_mem config (range i).1 (range i).2
  | succ k ih =>
    rw [coefficientsAfter_succ, ih]
    exact panel.pass_of_undamped config undamped range top

theorem coefficientsAfter_of_still [Nonempty ι] {prior : ι → ℝ} (undamped : config.damping = 0)
    (zero : ∀ i, within config (prior i) = 0) (k : ℕ) (i : ι) :
    panel.coefficientsAfter config prior k i = 0 := by
  induction k generalizing i with
  | zero => exact zero i
  | succ k ih =>
    have lowest : config.minCoefficient = 0 :=
      le_antisymm ((min_le_within config _).trans (zero i).le) config.min_nonneg
    have stays : ∀ j, panel.stepped config (panel.coefficientsAfter config prior k) j = 0 := by
      intro j
      unfold stepped within
      rw [undamped, ih j, lowest]
      simp [config.max_pos.le]
    rw [coefficientsAfter_succ]
    unfold pass
    simp [stays]

/-- After at least one pass the greatest coefficient is the upper end, but for the one case in which
nothing can move. -/
theorem iSup_coefficientsAfter [Nonempty ι] (prior : ι → ℝ) (k : ℕ)
    (moving : ¬(config.damping = 0 ∧ ∀ i, within config (prior i) = 0)) :
    ⨆ i, panel.coefficientsAfter config prior (k + 1) i = config.maxCoefficient := by
  induction k with
  | zero =>
    rw [coefficientsAfter_succ]
    rcases panel.iSup_pass_or_still config (panel.coefficientsAfter_nonneg config prior 0) with
      top | ⟨undamped, zero, -⟩
    · exact top
    · exact absurd ⟨undamped, zero⟩ moving
  | succ k ih =>
    rw [coefficientsAfter_succ]
    rcases panel.iSup_pass_or_still config (panel.coefficientsAfter_nonneg config prior (k + 1)) with
      top | ⟨-, zero, -⟩
    · exact top
    · simp only [zero, ciSup_const] at ih
      exact absurd ih config.max_pos.ne

end Panel
end RoundScoring.Consensus
