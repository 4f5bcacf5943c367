import RoundScoring.Proofs.Consensus.Definition
import RoundScoring.Proofs.Rounds.Refusing

/-!
A round fails for the stakes of its participants and for nothing else. What else a consensus could
stumble over is out of reach wherever passes lead: the weights and losses under a key pass every check
of a weighted mean, every key that is looked up has a level, and no divisor is zero. Coefficients may
be brought to zero by the range, but never below, and this is all that a pass needs to be told about
them.
-/

namespace RoundScoring

structure Loss.Weighable (weights losses : List ℝ) : Prop where
  even : weights.length = losses.length
  somebody : weights ≠ []
  nonneg : ∀ w ∈ weights, 0 ≤ w
  total_pos : 0 < weights.sum
  proper : ∀ x ∈ losses, Scalar.IsLoss x

/-- Each part keeps one of the faults from happening, so there is a mean only where all of them hold. -/
theorem Loss.weighable_iff {weights losses : List ℝ} :
    Weighable weights losses ↔ ∃ level, weightedLogLoss weights losses = .ok level := by
  constructor
  · rintro ⟨even, somebody, nonneg, positive, proper⟩
    unfold weightedLogLoss
    rw [if_neg (not_not.mpr even), if_neg somebody, if_neg (by simpa using nonneg),
      if_neg (not_le.mpr positive), if_neg (by simpa using proper)]
    exact ⟨_, rfl⟩
  · rintro ⟨level, weighed⟩
    unfold weightedLogLoss at weighed
    split_ifs at weighed with uneven nobody negative nothing improper
    refine ⟨not_not.mp uneven, nobody, fun w inside => ?_, not_le.mp nothing, fun x inside => ?_⟩
    · exact not_lt.mp fun below => negative ⟨w, inside, below⟩
    · exact not_not.mp fun wrong => improper ⟨x, inside, wrong⟩

namespace Consensus

open Scalar

noncomputable def gaps (levels : List (LossKey × ℝ)) (report : Report ℝ) : List ℝ :=
  levels.filterMap fun (key, level) => (report.lossAt? key).map fun loss => log10 loss - level

theorem deviation_eq_gaps (levels : List (LossKey × ℝ)) (report : Report ℝ) :
    deviation levels report = rootMeanSquare (gaps levels report) := rfl

theorem deviation_nonneg (levels : List (LossKey × ℝ)) (report : Report ℝ) :
    0 ≤ deviation levels report := by
  rw [deviation_eq_gaps, rootMeanSquare_eq]
  exact Real.sqrt_nonneg _

/-- The reports as they stand before some pass or after the last, from those with which a round
starts. -/
inductive Reached (config : Config ℝ) (keys : OrderedSet LossKey) (start : List (Report ℝ)) :
    List (Report ℝ) → Prop
  | start : Reached config keys start start
  | passed {before after : List (Report ℝ)} (standing : Reached config keys start before)
      (passes : pass config keys before = .ok after) : Reached config keys start after

/-- The best agreement with the levels, relative to which all of them are rated. -/
noncomputable def best (config : Config ℝ) (levels : List (LossKey × ℝ)) (reports : List (Report ℝ)) :
    ℝ :=
  greatest (reports.map fun report => agreement config (deviation levels report))

noncomputable def moved (config : Config ℝ) (levels : List (LossKey × ℝ))
    (reports : List (Report ℝ)) : List (Report ℝ) :=
  reports.map fun report => report.movedTowards config
    (agreement config (deviation levels report) / best config levels reports)

theorem pass_of_levels {config : Config ℝ} {keys : OrderedSet LossKey} {reports : List (Report ℝ)}
    {levels : List (LossKey × ℝ)} (leveled : levelsOf keys reports = .ok levels) :
    pass config keys reports = .ok (rescaled config (moved config levels reports)) := by
  unfold pass
  rw [leveled]
  change Except.ok _ = _
  simp only [List.map_map, Function.comp_def]
  rfl

/-- What a pass divides by is not zero: how many losses a report has, its deviation and the tolerance,
the best agreement, and the greatest coefficient unless nothing is scaled. -/
structure Divisible (config : Config ℝ) (levels : List (LossKey × ℝ)) (reports : List (Report ℝ)) :
    Prop where
  counts : ∀ report ∈ reports, (gaps levels report).length ≠ 0
  tolerated : ∀ report ∈ reports, deviation levels report + config.tolerance ≠ 0
  best : best config levels reports ≠ 0
  top : greatest ((moved config levels reports).map Report.coefficient) = 0 →
    rescaled config (moved config levels reports) = moved config levels reports

/-- A pass over these reports meets no fault, looks up nothing that is not there and divides by
nothing that is zero. The weights under a key are divided by their total, which is above zero. -/
structure Passable (config : Config ℝ) (keys : OrderedSet LossKey) (reports : List (Report ℝ)) :
    Prop where
  listed : ∀ report ∈ reports, ∀ key ∈ report.coverage.losses.keys, key ∈ keys
  weighable : ∀ key ∈ keys, Loss.Weighable
    (weights ((reporters reports key).map Prod.fst)) ((reporters reports key).map Prod.snd)
  divisible : ∃ levels, levelsOf keys reports = .ok levels ∧ Divisible config levels reports ∧
    pass config keys reports = .ok (rescaled config (moved config levels reports))

theorem best_pos (config : Config ℝ) (levels : List (LossKey × ℝ)) {reports : List (Report ℝ)}
    (somebody : reports ≠ []) : 0 < best config levels reports := by
  obtain ⟨first, rest, rfl⟩ := List.exists_cons_of_ne_nil somebody
  have apart := deviation_nonneg levels first
  have tolerance := config.tolerance_pos
  have positive : 0 < agreement config (deviation levels first) :=
    div_pos tolerance (by linarith)
  exact positive.trans_le ((foldl_larger_spec _ _).2 _ List.mem_cons_self)

theorem divisible_of_reported {config : Config ℝ} {levels : List (LossKey × ℝ)}
    {reports : List (Report ℝ)} (somebody : reports ≠ [])
    (reported : ∀ report ∈ reports, ∃ key ∈ levels.map Prod.fst, key ∈ report.coverage.losses.keys) :
    Divisible config levels reports where
  counts report inside := by
    obtain ⟨key, leveled, own⟩ := reported report inside
    obtain ⟨⟨key, level⟩, listed, rfl⟩ := List.mem_map.mp leveled
    obtain ⟨loss, found⟩ := mem_keys_iff_lossAt?.mp own
    refine List.length_eq_zero_iff.not.mpr (List.ne_nil_of_mem (a := log10 loss - level) ?_)
    refine List.mem_filterMap.mpr ⟨(key, level), listed, ?_⟩
    dsimp only
    rw [found]
    rfl
  tolerated report _ := by
    have apart := deviation_nonneg levels report
    have tolerance := config.tolerance_pos
    exact (by linarith : 0 < deviation levels report + config.tolerance).ne'
  best := (best_pos config levels somebody).ne'
  top nothing := by
    unfold rescaled
    rw [nothing]
    exact if_neg (lt_irrefl 0)

section Panel

variable {n : ℕ} {report : Fin n → Report ℝ} {keys : OrderedSet LossKey} {c : Fin n → ℝ}

theorem weighable_reportsAt (sound : Sound report keys) (nonneg : ∀ i, 0 ≤ c i) {key : LossKey}
    (member : key ∈ keys) :
    Loss.Weighable (weights ((reporters (reportsAt report c) key).map Prod.fst))
      ((reporters (reportsAt report c) key).map Prod.snd) :=
  Loss.weighable_iff.mpr ⟨_, levelAt_reportsAt sound nonneg member⟩

theorem passable_reportsAt (config : Config ℝ) (sound : Sound report keys) (nonneg : ∀ i, 0 ≤ c i)
    (somebody : 0 < n) (filled : ∀ i, (report i).coverage.losses.keys ≠ []) :
    Passable config keys (reportsAt report c) := by
  have listed : ∀ standing ∈ reportsAt report c, ∃ i,
      standing.coverage.losses.keys = (report i).coverage.losses.keys := by
    intro standing inside
    obtain ⟨i, rfl⟩ := List.mem_ofFn.mp inside
    exact ⟨i, rfl⟩
  have leveled := levelsOf_reportsAt sound nonneg
  refine ⟨?_, fun key => weighable_reportsAt sound nonneg, _, leveled, ?_, pass_of_levels leveled⟩
  · intro standing inside key own
    obtain ⟨i, same⟩ := listed standing inside
    exact (sound.mem_keys key).mpr ⟨i, same ▸ own⟩
  · apply divisible_of_reported
    · rw [← List.length_pos_iff, reportsAt, List.length_ofFn]
      exact somebody
    · intro standing inside
      obtain ⟨i, same⟩ := listed standing inside
      obtain ⟨key, own⟩ := List.exists_mem_of_ne_nil _ (filled i)
      refine ⟨key, ?_, same ▸ own⟩
      rw [List.map_map]
      exact (List.map_id _).symm ▸ (sound.mem_keys key).mpr ⟨i, own⟩

theorem Reached.exists_coefficients {config : Config ℝ} (sound : Sound report keys)
    (nonneg : ∀ i, 0 ≤ c i) {standing : List (Report ℝ)}
    (reached : Reached config keys (reportsAt report c) standing) :
    ∃ c' : Fin n → ℝ, (∀ i, 0 ≤ c' i) ∧ standing = reportsAt report c' := by
  induction reached with
  | start => exact ⟨c, nonneg, rfl⟩
  | passed _ passes ih =>
    obtain ⟨before, above, rfl⟩ := ih
    rw [pass_reportsAt config sound above] at passes
    cases passes
    exact ⟨_, fun i => config.min_nonneg.trans (Panel.min_le_pass _ config before i), rfl⟩

end Panel

theorem reached_of_settle {config : Config ℝ} {keys : OrderedSet LossKey}
    {start standing settled : List (Report ℝ)} {remaining done passes : ℕ}
    (reached : Reached config keys start standing)
    (settles : settle config keys remaining standing done = .ok (settled, passes)) :
    Reached config keys start settled := by
  induction remaining generalizing standing done with
  | zero =>
    cases settles
    exact reached
  | succ remaining ih =>
    obtain ⟨after, passed, rest⟩ := Fault.bind_eq_ok_iff.mp settles
    split at rest
    next =>
      cases rest
      exact reached.passed passed
    next => exact ih (reached.passed passed) rest

/-- Why a round is refused: somebody takes part, and some stake is below zero or all come to zero. -/
def Refused (reports : List (Report ℝ)) : Prop :=
  taking reports ≠ [] ∧ ((∃ report ∈ taking reports, report.stake < 0) ∨
    ((taking reports).map Report.stake).sum = 0)

theorem checkStakes_eq_error_iff {reports : List (Report ℝ)} :
    (∃ fault, checkStakes reports = .error fault) ↔
      (∃ report ∈ reports, report.stake < 0) ∨ (reports.map Report.stake).sum = 0 := by
  have fails : (∃ fault, checkStakes reports = .error fault) ↔ ¬checkStakes reports = .ok () := by
    cases checkStakes reports <;> simp
  rw [fails, checkStakes_eq_ok_iff]
  constructor
  · intro failed
    by_cases negative : ∃ report ∈ reports, report.stake < 0
    · exact .inl negative
    have nonneg : ∀ report ∈ reports, 0 ≤ report.stake :=
      fun report inside => not_lt.mp fun below => negative ⟨report, inside, below⟩
    have total : 0 ≤ (reports.map Report.stake).sum :=
      List.sum_nonneg fun stake inside => by
        obtain ⟨report, member, rfl⟩ := List.mem_map.mp inside
        exact nonneg report member
    exact .inr (le_antisymm (not_lt.mp fun positive => failed ⟨nonneg, positive⟩) total)
  · rintro (⟨report, inside, below⟩ | nothing) ⟨nonneg, positive⟩
    · exact absurd (nonneg report inside) (not_le.mpr below)
    · exact positive.ne' nothing

theorem checkStakes_of_not_refused {reports : List (Report ℝ)} (somebody : taking reports ≠ [])
    (allowed : ¬Refused reports) : checkStakes (taking reports) = .ok () := by
  cases checked : checkStakes (taking reports) with
  | ok => rfl
  | error fault =>
    exact absurd ⟨somebody, checkStakes_eq_error_iff.mp ⟨fault, checked⟩⟩ allowed

/-- A round is refused for its stakes or it is concluded; then every pass could be made, and so could
one more where they end. -/
structure FailsForStakesOnly (config : Config ℝ) (reports : List (Report ℝ)) : Prop where
  fails_iff : (∃ fault, aggregate config reports = .error fault) ↔ Refused reports
  fault : ∀ fault, aggregate config reports = .error fault → fault.kind = .invalidInput ∧
    fault = if ∃ report ∈ taking reports, report.stake < 0 then .negativeStake else .noStake
  nobody : taking reports = [] →
    aggregate config reports = .ok (conclude [] [] (left reports) 0)
  somebody : taking reports ≠ [] → ¬Refused reports →
    (∀ standing, Reached config (lossKeys (taking reports))
      ((taking reports).map (Report.clamped config)) standing →
      Passable config (lossKeys (taking reports)) standing) ∧
    ∃ consensus settled passes levels,
      Concluded config reports consensus settled passes levels ∧
        Reached config (lossKeys (taking reports))
          ((taking reports).map (Report.clamped config)) settled

theorem fails_for_stakes_only (config : Config ℝ) {reports : List (Report ℝ)}
    (filled : ∀ report ∈ reports,
      report.coverage.hasEligible → report.coverage.losses.entries ≠ []) :
    FailsForStakesOnly config reports where
  fails_iff := by
    simp only [aggregate_eq_error_iff, exists_and_left, checkStakes_eq_error_iff]
    rfl
  fault fault failed := by
    refine ⟨refuses_aggregate config reports fault failed, ?_⟩
    have checked := (aggregate_eq_error_iff.mp failed).2
    unfold checkStakes at checked
    split_ifs at checked with negative
    · cases checked
      exact (if_pos negative).symm
    · cases checked
      exact (if_neg negative).symm
  nobody := aggregate_of_nobody
  somebody somebody allowed := by
    have stakes := checkStakes_of_not_refused somebody allowed
    have sound := sound_of_checkStakes stakes
    constructor
    · intro standing reached
      rw [map_clamped] at reached
      obtain ⟨c, nonneg, rfl⟩ := reached.exists_coefficients sound
        ((roundPanel reports).coefficientsAfter_nonneg config (priors reports) 0)
      refine passable_reportsAt config sound nonneg (List.length_pos_iff.mpr somebody) fun i => ?_
      obtain ⟨inside, takes⟩ := List.mem_filter.mp (List.get_mem (taking reports) i)
      have own := filled _ inside ((takesPart_iff _).mp takes).1
      exact fun none => own (List.map_eq_nil_iff.mp none)
    · obtain ⟨settled, passes, levels, concluded⟩ :=
        concluded_of_aggregate somebody (aggregate_of_stakes config somebody stakes)
      exact ⟨_, settled, passes, levels, concluded, reached_of_settle .start concluded.settles⟩

/-- Here only one of two participants has a stake, and its coefficient is below zero. -/
theorem negative_coefficient_fails_nothing :
    (∀ report ∈ [Report.lone 1 0 1 1, Report.lone 2 3 10 (-2)],
      report.coverage.hasEligible → report.coverage.losses.entries ≠ []) ∧
    ¬Refused [Report.lone 1 0 1 1, Report.lone 2 3 10 (-2)] ∧
    FailsForStakesOnly (.onePass 1 zero_le_one le_rfl)
      [Report.lone 1 0 1 1, Report.lone 2 3 10 (-2)] := by
  have filled : ∀ report ∈ [Report.lone 1 0 1 1, Report.lone 2 3 10 (-2)],
      report.coverage.hasEligible → report.coverage.losses.entries ≠ [] := by
    intro report inside _
    simp only [List.mem_cons, List.not_mem_nil, or_false] at inside
    rcases inside with rfl | rfl <;> exact List.cons_ne_nil _ _
  refine ⟨filled, ?_, fails_for_stakes_only _ filled⟩
  have all : taking [Report.lone 1 0 1 1, Report.lone 2 3 10 (-2)] =
      [Report.lone 1 0 1 1, Report.lone 2 3 10 (-2)] := by
    unfold taking
    rw [List.filter_cons_of_pos (takesPart_lone _ _ _ one_pos),
      List.filter_cons_of_pos (takesPart_lone _ _ _ (by norm_num)), List.filter_nil]
  unfold Refused
  rw [all]
  norm_num [Report.lone]

end Consensus
end RoundScoring
