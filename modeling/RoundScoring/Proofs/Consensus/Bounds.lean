import RoundScoring.Proofs.Consensus.Definition

/-!
The coefficients that a consensus returns. They are those with which the passes end, stored by
reputer, so of two reports of one reputer the later one's is returned. All of them lie in the range,
and once a pass was made the greatest that the passes end with is the upper end of it, but for
participants that cannot move.
-/

namespace RoundScoring.Consensus

/-- Participants that no pass can move: there is no damping, and each comes in at zero. -/
def Still (config : Config ℝ) (reports : List (Report ℝ)) : Prop :=
  config.damping = 0 ∧ ∀ report ∈ taking reports,
    Scalar.clamp config.minCoefficient config.maxCoefficient report.coefficient = 0

theorem still_iff (config : Config ℝ) (reports : List (Report ℝ)) :
    Still config reports ↔
      config.damping = 0 ∧ ∀ i, Panel.within config (priors reports i) = 0 := by
  unfold Still
  refine and_congr_right fun _ => ?_
  simp only [clamp_eq_within]
  constructor
  · intro zero i
    exact zero _ (List.get_mem _ i)
  · intro zero report inside
    obtain ⟨i, rfl⟩ := List.get_of_mem inside
    exact zero i

theorem coefficients_of_aggregate {config : Config ℝ} {reports : List (Report ℝ)}
    {consensus : Consensus ℝ} (returned : aggregate config reports = .ok consensus) :
    consensus.coefficients =
      .ofList (byReputer reports ((roundPanel reports).coefficients config (priors reports))) := by
  rcases aggregate_eq_ok returned with ⟨nobody, rfl⟩ | ⟨-, -, rfl⟩
  · rw [byReputer_of_nobody nobody]
    rfl
  · exact congrArg Table.ofList (map_reportsAt_taking _ _ _)

theorem passes_of_aggregate {config : Config ℝ} {reports : List (Report ℝ)}
    {consensus : Consensus ℝ} (returned : aggregate config reports = .ok consensus)
    (passed : 0 < consensus.passes) :
    taking reports ≠ [] ∧ consensus.passes = (roundPanel reports).passes config (priors reports) := by
  rcases aggregate_eq_ok returned with ⟨-, rfl⟩ | ⟨somebody, -, rfl⟩
  · exact absurd passed (lt_irrefl 0)
  · exact ⟨somebody, rfl⟩

theorem coefficients_mem_of_aggregate {config : Config ℝ} {reports : List (Report ℝ)}
    {consensus : Consensus ℝ} (returned : aggregate config reports = .ok consensus) :
    ∀ entry ∈ consensus.coefficients.entries,
      config.minCoefficient ≤ entry.2 ∧ entry.2 ≤ config.maxCoefficient := by
  intro entry inside
  rw [coefficients_of_aggregate returned] at inside
  obtain ⟨i, rfl⟩ := List.mem_ofFn.mp (Table.mem_of_mem_entries_ofList inside)
  exact (roundPanel reports).coefficientsAfter_mem config (priors reports) _ i

theorem eq_zero_of_still {config : Config ℝ} {reports : List (Report ℝ)}
    (somebody : taking reports ≠ []) (still : Still config reports) :
    ∀ i, (roundPanel reports).coefficients config (priors reports) i = 0 := by
  obtain ⟨undamped, zero⟩ := (still_iff config reports).mp still
  have : NeZero (taking reports).length := ⟨by simpa using somebody⟩
  intro i
  exact (roundPanel reports).coefficientsAfter_of_still config undamped zero _ i

theorem exists_max_of_moving {config : Config ℝ} {reports : List (Report ℝ)}
    (somebody : taking reports ≠ [])
    (passed : 0 < (roundPanel reports).passes config (priors reports))
    (moving : ¬Still config reports) :
    ∃ i, (roundPanel reports).coefficients config (priors reports) i = config.maxCoefficient := by
  rw [still_iff] at moving
  have : NeZero (taking reports).length := ⟨by simpa using somebody⟩
  obtain ⟨k, last⟩ := Nat.exists_eq_succ_of_ne_zero passed.ne'
  have top := (roundPanel reports).iSup_coefficientsAfter config (priors reports) k moving
  obtain ⟨i, greatest⟩ := exists_eq_ciSup_of_finite
    (f := (roundPanel reports).coefficientsAfter config (priors reports) (k + 1))
  refine ⟨i, ?_⟩
  unfold Panel.coefficients
  rw [last, Nat.succ_eq_add_one, greatest, top]

/-- Whatever counts of a report, there is a loss in it. Without any, its deviation is no number. -/
def Filled (reports : List (Report ℝ)) : Prop :=
  ∀ report ∈ reports, report.coverage.hasEligible → report.coverage.losses.entries ≠ []

/-- How the coefficients of a consensus stand in the range. Among those with which the passes end the
greatest is the upper end; of a reputer's reports the last one's is returned, so all of them are
where no reputer takes part twice. -/
structure Normalised (config : Config ℝ) (reports : List (Report ℝ)) (consensus : Consensus ℝ) :
    Prop where
  range : ∀ entry ∈ consensus.coefficients.entries,
    config.minCoefficient ≤ entry.2 ∧ entry.2 ≤ config.maxCoefficient
  zero : Still config reports → ∀ entry ∈ consensus.coefficients.entries, entry.2 = 0
  settled : 0 < consensus.passes →
    ∃ settled passes levels, Concluded config reports consensus settled passes levels ∧
      (Still config reports → ∀ report ∈ settled, report.coefficient = 0) ∧
      (¬Still config reports →
        IsGreatest {c | c ∈ settled.map Report.coefficient} config.maxCoefficient)
  returned : 0 < consensus.passes → ¬Still config reports →
    ((taking reports).map Report.reputer).Nodup →
      IsGreatest {c | c ∈ consensus.coefficients.entries.map Prod.snd} config.maxCoefficient

theorem isGreatest_of_moving {config : Config ℝ} {reports : List (Report ℝ)}
    (somebody : taking reports ≠ [])
    (passed : 0 < (roundPanel reports).passes config (priors reports))
    (moving : ¬Still config reports) :
    IsGreatest {c | c ∈ List.ofFn ((roundPanel reports).coefficients config (priors reports))}
      config.maxCoefficient := by
  obtain ⟨i, top⟩ := exists_max_of_moving somebody passed moving
  refine ⟨List.mem_ofFn.mpr ⟨i, top⟩, fun c inside => ?_⟩
  obtain ⟨j, rfl⟩ := List.mem_ofFn.mp inside
  exact ((roundPanel reports).coefficientsAfter_mem config (priors reports) _ j).2

theorem normalised_of_aggregate {config : Config ℝ} {reports : List (Report ℝ)}
    {consensus : Consensus ℝ} (returned : aggregate config reports = .ok consensus) :
    Normalised config reports consensus := by
  have stored := coefficients_of_aggregate returned
  refine ⟨coefficients_mem_of_aggregate returned, fun still entry inside => ?_,
    fun passed => ?_, fun passed moving once => ?_⟩
  · rw [stored] at inside
    obtain ⟨i, rfl⟩ := List.mem_ofFn.mp (Table.mem_of_mem_entries_ofList inside)
    have somebody : taking reports ≠ [] := List.ne_nil_of_mem (List.get_mem _ i)
    exact eq_zero_of_still somebody still i
  · rcases aggregate_eq_ok returned with ⟨-, rfl⟩ | ⟨somebody, stakes, rfl⟩
    · exact absurd passed (lt_irrefl 0)
    · refine ⟨_, _, _, concluded_ofPanel config stakes, fun still report inside => ?_,
        fun moving => ?_⟩
      · have ended := List.mem_map_of_mem (f := Report.coefficient) inside
        rw [map_reportsAt] at ended
        obtain ⟨i, same⟩ := List.mem_ofFn.mp ended
        exact same.symm.trans (eq_zero_of_still somebody still i)
      · rw [map_reportsAt]
        exact isGreatest_of_moving somebody passed moving
  · obtain ⟨somebody, passes⟩ := passes_of_aggregate returned passed
    rw [stored, entries_ofList_byReputer once, byReputer, List.map_ofFn]
    exact isGreatest_of_moving somebody (passes ▸ passed) moving

end RoundScoring.Consensus
