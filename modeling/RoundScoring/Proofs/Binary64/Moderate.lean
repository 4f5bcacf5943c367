import RoundScoring.Proofs.Binary64.Ongoing

/-!
Settings of moderate size, neither tiny nor huge. With them the greatest coefficient after a pass is
zero or not so small that it could not be scaled to the upper end of the range. So a consensus that
is returned holds finite numbers, whatever the reports say and whatever else the settings are.
-/

namespace RoundScoring.Consensus

open Binary64 Scalar

theorem floor_le : (1e-150 : Float).isFinite = true ∧ 2 ^ (-499 : ℤ) ≤ value 1e-150 := by
  have known : content 1e-150 = .finite false 7371020360979573 (-551) := by decide +kernel
  obtain ⟨finite, worth⟩ := value_of_content known
  refine ⟨finite, ?_⟩
  rw [worth, show (-499 : ℤ) = 52 + -551 by norm_num, zpow_add₀ two_ne_zero]
  norm_num

/-- What the greatest coefficient is not below, unless it is zero. -/
noncomputable def Config.floor (config : Config Float) : ℝ :=
  min (value 1e-150) (value config.maxCoefficient)

/-- A pass lifts some coefficient well above zero, or leaves this one, which is not tiny, alone. -/
def Config.Lifts (config : Config Float) (coefficient : Float) : Prop :=
  1e-150 ≤ config.damping ∨ 1e-150 ≤ config.minCoefficient ∨
    (config.damping ≤ 0 ∧ config.minCoefficient ≤ 0 ∧ (coefficient ≤ 0 ∨ 1e-150 ≤ coefficient))

def Config.Lifted (config : Config Float) (coefficient : Float) : Prop :=
  value 1e-150 ≤ value config.damping ∨ value 1e-150 ≤ value config.minCoefficient ∨
    (value config.damping = 0 ∧ value config.minCoefficient = 0 ∧
      (value coefficient = 0 ∨ config.floor ≤ value coefficient))

variable {config : Config Float} (ranged : config.Ranged)

include ranged

structure Moved (config : Config Float) (target before after : Float) : Prop where
  within : Within (value config.minCoefficient) (value config.maxCoefficient) after
  reached : value target = 1 → min (value config.damping) (value config.maxCoefficient) ≤ value after
  still : value config.damping = 0 → value config.minCoefficient = 0 →
    value after = min (value before) (value config.maxCoefficient)

theorem moved_of_target {report : Report Float} {target : Float}
    (coefficient : Within 0 (2 * value config.maxCoefficient) report.coefficient)
    (unit : Within 0 1 target) :
    Moved config target report.coefficient (report.movedTowards config target).coefficient := by
  have damping := ranged.damping
  have twice := ranged.representable_twice
  have rest := roundsTo_sub value_one.1 damping.finite
  rw [value_one.2] at rest
  have share : Within 0 1 (1 - config.damping) :=
    rest.within ⟨representable_zero, representable_one, sub_nonneg.mpr damping.le_high,
      sub_le_self 1 damping.low_le⟩
  have product := roundsTo_mul share.finite coefficient.finite
  have kept : Within 0 (2 * value config.maxCoefficient)
      ((1 - config.damping) * report.coefficient) := by
    refine product.within ⟨representable_zero, twice,
      mul_nonneg share.low_le coefficient.low_le, ?_⟩
    exact (mul_le_of_le_one_left coefficient.low_le share.le_high).trans coefficient.le_high
  have step := roundsTo_mul damping.finite unit.finite
  have gained : Within 0 1 (config.damping * target) := by
    refine step.within ⟨representable_zero, representable_one,
      mul_nonneg damping.low_le unit.low_le, ?_⟩
    exact mul_le_one₀ damping.le_high unit.low_le unit.le_high
  have sum := roundsTo_add kept.finite gained.finite
  have whole : Within (value (config.damping * target)) (2 ^ (501 : ℤ))
      ((1 - config.damping) * report.coefficient + config.damping * target) := by
    refine sum.within ⟨representable_value gained.finite,
      representable_two_zpow (by norm_num) (by norm_num), le_add_of_nonneg_left kept.low_le, ?_⟩
    have power : (2 : ℝ) ^ (501 : ℤ) = 4 * 2 ^ (499 : ℤ) := by
      rw [show (501 : ℤ) = 2 + 499 by norm_num, zpow_add₀ two_ne_zero]
      norm_num
    have large : (1 : ℝ) ≤ 2 ^ (499 : ℤ) := one_le_zpow₀ one_le_two (by norm_num)
    have most := ranged.max.le_high
    rw [power]
    generalize (2 : ℝ) ^ (499 : ℤ) = bound at large most
    linarith [kept.le_high, gained.le_high]
  obtain ⟨finite, worth⟩ := value_clamp ranged.min.finite ranged.max.finite whole.finite
  refine ⟨⟨finite, ?_, ?_⟩, fun best => ?_, fun undamped zero => ?_⟩
  · exact worth ▸ le_min (le_max_right _ _) ranged.min.le_high
  · exact worth ▸ min_le_right _ _
  · have reached : value config.damping ≤ value (config.damping * target) := by
      rw [best, mul_one] at step
      exact (step.eq_of_representable (representable_value damping.finite)).2.ge
    exact worth ▸ min_le_min_right _ ((reached.trans whole.low_le).trans (le_max_left _ _))
  · rw [undamped, sub_zero] at rest
    rw [(rest.eq_of_representable representable_one).2, one_mul] at product
    rw [undamped, zero_mul] at step
    rw [(product.eq_of_representable (representable_value coefficient.finite)).2,
      (step.eq_of_representable representable_zero).2, add_zero] at sum
    have same := (sum.eq_of_representable (representable_value coefficient.finite)).2
    change value (clamp _ _ _) = _
    rw [worth, same, zero, max_eq_left coefficient.low_le]

theorem Moved.lifted {target before after : Float} (moved : Moved config target before after)
    (lifted : config.Lifted before) : config.Lifted after := by
  refine lifted.imp_right (Or.imp_right fun ⟨undamped, zero, own⟩ => ⟨undamped, zero, ?_⟩)
  rw [moved.still undamped zero]
  rcases own with own | own
  · exact .inl (by rw [own, min_eq_left ranged.positive.le])
  · exact .inr (le_min own (min_le_right _ _))

theorem within_scaled {coefficient top : Float} (below : Within 0 (value top) coefficient)
    (greatest : Within config.floor (value config.maxCoefficient) top) :
    Within (value coefficient) (2 * value config.maxCoefficient)
        (coefficient * (config.maxCoefficient / top)) ∧
      (value coefficient = 0 → value (coefficient * (config.maxCoefficient / top)) = 0) := by
  have max := ranged.max
  have floor_pos : 0 < config.floor :=
    lt_min ((two_zpow_pos _).trans_le floor_le.2) ranged.positive
  have positive : 0 < value top := floor_pos.trans_le greatest.low_le
  have least : 1 ≤ value config.maxCoefficient / value top :=
    (one_le_div positive).mpr greatest.le_high
  have reach : value config.maxCoefficient / value top ≤ 2 ^ (998 : ℤ) := by
    rw [div_le_iff₀ positive]
    rcases min_le_iff.mp greatest.low_le with above | above
    · calc value config.maxCoefficient ≤ 2 ^ (499 : ℤ) := max.le_high
        _ = 2 ^ (998 : ℤ) * 2 ^ (-499 : ℤ) := by rw [← zpow_add₀ two_ne_zero]; norm_num
        _ ≤ 2 ^ (998 : ℤ) * value top :=
          mul_le_mul_of_nonneg_left (floor_le.2.trans above) (two_zpow_pos _).le
    · refine above.trans (le_mul_of_one_le_left positive.le ?_)
      exact one_le_zpow₀ one_le_two (by norm_num)
  have ratio := roundsTo_div max.finite greatest.finite positive.ne'
  have factor : Within 1 (2 ^ (998 : ℤ)) (config.maxCoefficient / top) :=
    ratio.within ⟨representable_one,
      representable_two_zpow (by norm_num) (by norm_num), least, reach⟩
  have twice : value (config.maxCoefficient / top) ≤
      2 * (value config.maxCoefficient / value top) := by
    have normal : (2 : ℝ) ^ (-1022 : ℤ) ≤ value config.maxCoefficient / value top :=
      (zpow_le_one_of_nonpos₀ one_le_two (by norm_num)).trans least
    have small : roundoff ≤ 1 := by linarith [one_sub_roundoff_pos]
    rw [ratio.value_eq factor.finite]
    exact (nearest_le_mul normal).trans
      (mul_le_mul_of_nonneg_right (by linarith) (one_pos.trans_le least).le)
  have product := roundsTo_mul below.finite factor.finite
  constructor
  · refine product.within ⟨representable_value below.finite, ranged.representable_twice,
      le_mul_of_one_le_right below.low_le factor.low_le, ?_⟩
    calc value coefficient * value (config.maxCoefficient / top)
        ≤ value top * (2 * (value config.maxCoefficient / value top)) :=
          mul_le_mul below.le_high twice (one_pos.trans_le factor.low_le).le positive.le
      _ = 2 * value config.maxCoefficient := by field_simp
  · intro zero
    rw [zero, zero_mul] at product
    exact (product.eq_of_representable representable_zero).2

theorem within_rescaled_of_top {reports : List (Report Float)} (somebody : reports ≠ [])
    (each : ∀ report ∈ reports, Within 0 (value config.maxCoefficient) report.coefficient)
    (top : ∀ report ∈ reports, (∀ other ∈ reports,
      value other.coefficient ≤ value report.coefficient) →
      value report.coefficient = 0 ∨ config.floor ≤ value report.coefficient) :
    ∀ report ∈ rescaled config reports, ∃ before ∈ reports,
      Within (value before.coefficient) (2 * value config.maxCoefficient) report.coefficient ∧
        (value before.coefficient = 0 → value report.coefficient = 0) := by
  have coefficients : ∀ c ∈ reports.map Report.coefficient, c.isFinite = true :=
    List.forall_mem_map.mpr fun report inside => (each report inside).finite
  obtain ⟨member, above⟩ := greatest_spec (by simpa using somebody) coefficients
  obtain ⟨best, inside, same⟩ := List.mem_map.mp member
  rw [← same, List.forall_mem_map] at above
  unfold rescaled
  dsimp only
  rw [← same]
  by_cases some : (0 : Float) < best.coefficient
  · rw [if_pos some]
    rw [lt_iff value_zero.1 (each best inside).finite, value_zero.2] at some
    have range := each best inside
    have greatest : Within config.floor (value config.maxCoefficient) best.coefficient :=
      ⟨range.finite, (top best inside above).resolve_left some.ne', range.le_high⟩
    refine List.forall_mem_map.mpr fun report member => ⟨report, member, ?_⟩
    have own := each report member
    exact within_scaled ranged ⟨own.finite, own.low_le, above report member⟩ greatest
  · rw [if_neg some]
    intro report member
    have own := each report member
    exact ⟨report, member, ⟨own.finite, le_rfl, by linarith [own.le_high, ranged.positive]⟩, id⟩

omit ranged

theorem within_agreement_of_moderate {deviation : Float}
    (tolerance : Within (2 ^ (-499 : ℤ)) (2 ^ (499 : ℤ)) config.tolerance)
    (within : Within 0 (2 ^ (91 : ℤ)) deviation) :
    Within (2 ^ (-999 : ℤ)) 1 (agreement config deviation) := by
  have sum : Within (value config.tolerance) (2 ^ (500 : ℤ)) (deviation + config.tolerance) := by
    refine (roundsTo_add within.finite tolerance.finite).within
      ⟨representable_value tolerance.finite, representable_two_zpow (by norm_num) (by norm_num),
        le_add_of_nonneg_left within.low_le, ?_⟩
    have smaller : (2 : ℝ) ^ (91 : ℤ) ≤ 2 ^ (499 : ℤ) :=
      zpow_le_zpow_right₀ one_le_two (by norm_num)
    calc value deviation + value config.tolerance ≤ 2 ^ (499 : ℤ) + 2 ^ (499 : ℤ) :=
          add_le_add (within.le_high.trans smaller) tolerance.le_high
      _ = 2 ^ (500 : ℤ) := by
          rw [← two_mul, ← zpow_one_add₀ two_ne_zero]
          norm_num
  have above : 0 < value config.tolerance := (two_zpow_pos _).trans_le tolerance.low_le
  have positive := above.trans_le sum.low_le
  refine (roundsTo_div tolerance.finite sum.finite positive.ne').within
    ⟨representable_two_zpow (by norm_num) (by norm_num), representable_one, ?_, ?_⟩
  · rw [le_div_iff₀ positive]
    calc (2 : ℝ) ^ (-999 : ℤ) * value (deviation + config.tolerance)
        ≤ 2 ^ (-999 : ℤ) * 2 ^ (500 : ℤ) :=
          mul_le_mul_of_nonneg_left sum.le_high (two_zpow_pos _).le
      _ = 2 ^ (-499 : ℤ) := by
          rw [← zpow_add₀ two_ne_zero]
          norm_num
      _ ≤ value config.tolerance := tolerance.low_le
  · exact (div_le_one positive).mpr sum.low_le

section Passing

variable {keys : OrderedSet LossKey} {reports : List (Report Float)} (ranged : config.Ranged)
  (tolerance : Within (2 ^ (-499 : ℤ)) (2 ^ (499 : ℤ)) config.tolerance)

include ranged tolerance

theorem within_targets (ongoing : Ongoing config keys reports) {levels : List (LossKey × Float)}
    (leveled : levelsOf keys reports = .ok levels) :
    (∀ report ∈ reports, Within 0 1 (agreement config (deviation levels report) /
      greatest (reports.map fun report => agreement config (deviation levels report)))) ∧
    ∃ report ∈ reports, value (agreement config (deviation levels report) /
      greatest (reports.map fun report => agreement config (deviation levels report))) = 1 := by
  have agreed : ∀ report ∈ reports,
      Within (2 ^ (-999 : ℤ)) 1 (agreement config (deviation levels report)) := fun report inside =>
    within_agreement_of_moderate tolerance (ongoing.within_deviation ranged leveled inside)
  obtain ⟨member, above⟩ := greatest_spec (by simpa using ongoing.somebody)
    (List.forall_mem_map.mpr fun report inside => (agreed report inside).finite)
  obtain ⟨first, inside, best⟩ := List.mem_map.mp member
  rw [← best, List.forall_mem_map] at above
  rw [← best]
  have top := agreed first inside
  have positive : 0 < value (agreement config (deviation levels first)) :=
    (two_zpow_pos _).trans_le top.low_le
  constructor
  · intro report listed
    have own := agreed report listed
    refine (roundsTo_div own.finite top.finite positive.ne').within
      ⟨representable_zero, representable_one, ?_, ?_⟩
    · exact div_nonneg ((two_zpow_pos _).le.trans own.low_le) positive.le
    · exact (div_le_one positive).mpr (above report listed)
  · have ratio := roundsTo_div top.finite top.finite positive.ne'
    rw [div_self positive.ne'] at ratio
    exact ⟨first, inside, (ratio.eq_of_representable representable_one).2⟩

theorem ongoing_of_pass {moved : List (Report Float)} (ongoing : Ongoing config keys reports)
    (lifted : ∀ report ∈ reports, config.Lifted report.coefficient)
    (passed : pass config keys reports = .ok moved) :
    Ongoing config keys moved ∧ ∀ report ∈ moved, config.Lifted report.coefficient := by
  obtain ⟨levels, leveled, -⟩ := Fault.bind_eq_ok_iff.mp passed
  obtain ⟨targets, best⟩ := within_targets ranged tolerance ongoing leveled
  have same := pass_same passed
  rw [pass_of_levelsOf leveled] at passed
  cases passed
  generalize greatest (reports.map fun report => agreement config (deviation levels report)) = top at *
  set stepped := reports.map fun report =>
    report.movedTowards config (agreement config (deviation levels report) / top) with steps
  have moves : ∀ report ∈ reports, Moved config (agreement config (deviation levels report) / top)
      report.coefficient (report.movedTowards config
        (agreement config (deviation levels report) / top)).coefficient := fun report inside =>
    moved_of_target ranged (ongoing.coefficients report inside) (targets report inside)
  have range : ∀ report ∈ stepped,
      Within 0 (value config.maxCoefficient) report.coefficient :=
    List.forall_mem_map.mpr fun report inside =>
      (moves report inside).within.mono ranged.min.low_le le_rfl
  have still : ∀ report ∈ stepped, config.Lifted report.coefficient :=
    List.forall_mem_map.mpr fun report inside =>
      (moves report inside).lifted ranged (lifted report inside)
  have scaled := within_rescaled_of_top ranged (by simpa [steps] using ongoing.somebody) range ?_
  · refine ⟨ongoing.of_same same fun report inside => ?_, fun report inside => ?_⟩
    · obtain ⟨before, listed, within, -⟩ := scaled report inside
      exact within.mono (range before listed).low_le le_rfl
    · obtain ⟨before, listed, within, vanishes⟩ := scaled report inside
      refine (still before listed).imp_right
        (Or.imp_right fun ⟨undamped, zero, own⟩ => ⟨undamped, zero, ?_⟩)
      exact own.imp vanishes fun own => own.trans within.low_le
  · -- the greatest of the moved coefficients is that of the best report, or what did not move
    intro report inside above
    rcases still report inside with damping | low | ⟨-, -, own⟩
    · obtain ⟨first, member, one⟩ := best
      have reached := (moves first member).reached one
      exact .inr ((min_le_min_right _ damping).trans
        (reached.trans (above _ (List.mem_map_of_mem member))))
    · obtain ⟨first, member, rfl⟩ := List.mem_map.mp inside
      exact .inr ((min_le_left _ _).trans (low.trans (moves first member).within.low_le))
    · exact own

theorem ongoing_of_settle {remaining done passes : ℕ} {settled : List (Report Float)}
    (ongoing : Ongoing config keys reports)
    (lifted : ∀ report ∈ reports, config.Lifted report.coefficient)
    (settles : settle config keys remaining reports done = .ok (settled, passes)) :
    Ongoing config keys settled := by
  induction remaining generalizing reports done with
  | zero =>
    cases settles
    exact ongoing
  | succ remaining ih =>
    obtain ⟨moved, passed, rest⟩ := Fault.bind_eq_ok_iff.mp settles
    obtain ⟨ongoing, lifted⟩ := ongoing_of_pass ranged tolerance ongoing lifted passed
    split at rest
    next =>
      cases rest
      exact ongoing
    next => exact ih ongoing lifted rest

end Passing

section Aggregate

variable {reports : List (Report Float)} (small : config.maxCoefficient ≤ 1e150)
  (stakes : ∀ report ∈ taking reports, report.stake ≤ 1e150)
  (coefficients : ∀ report ∈ taking reports, 0 ≤ report.coefficient)
  (filled : ∀ report ∈ taking reports, report.coverage.losses.entries ≠ [])

include small stakes coefficients filled

theorem ongoing_clamped (somebody : taking reports ≠ [])
    (checked : checkStakes (taking reports) = .ok ()) :
    Ongoing config (lossKeys (taking reports)) ((taking reports).map (Report.clamped config)) := by
  have ranged := config.ranged small
  have ceiling := within_ceiling
  unfold checkStakes at checked
  split_ifs at checked with negative
  refine ⟨by simpa using somebody, ?_, List.forall_mem_map.mpr filled, ?_, ?_, ?_⟩
  · refine List.forall_mem_map.mpr fun report inside => ?_
    have stake := within_of_not_lt ceiling.finite (fun below => negative ⟨report, inside, below⟩)
      (stakes report inside)
    exact stake.mono le_rfl ceiling.le_high
  · refine List.forall_mem_map.mpr fun report inside => ?_
    have takes := (List.mem_filter.mp inside).2
    exact fun entry member => of_decide_eq_true
      (List.all_eq_true.mp (Bool.and_eq_true_iff.mp takes).2 entry member)
  · exact List.forall_mem_map.mpr fun report inside key own => mem_lossKeys.mpr ⟨report, inside, own⟩
  · refine List.forall_mem_map.mpr fun report inside => ?_
    have clamped := within_clamp ranged.min.finite ranged.max.finite ranged.min.le_high
      (coefficients report inside)
    exact clamped.mono ranged.min.low_le (by linarith [ranged.positive])

omit stakes filled in
theorem lifted_clamped (lifts : ∀ report ∈ taking reports, config.Lifts report.coefficient) :
    ∀ report ∈ (taking reports).map (Report.clamped config), config.Lifted report.coefficient := by
  have ranged := config.ranged small
  have above : ∀ {x : Float}, x.isFinite = true → 1e-150 ≤ x → value 1e-150 ≤ value x :=
    fun finite ordered => (le_iff floor_le.1 finite).mp ordered
  have zero : ∀ {x : Float} {high : ℝ}, Within 0 high x → x ≤ 0 → value x = 0 := by
    intro x high within ordered
    rw [le_iff within.finite value_zero.1, value_zero.2] at ordered
    exact le_antisymm ordered within.low_le
  refine List.forall_mem_map.mpr fun report inside => ?_
  change config.Lifted (clamp config.minCoefficient config.maxCoefficient report.coefficient)
  rcases lifts report inside with damping | low | ⟨undamped, least, own⟩
  · exact .inl (above ranged.damping.finite damping)
  · exact .inr (.inl (above ranged.min.finite low))
  · refine .inr (.inr ⟨zero ranged.damping undamped, zero ranged.min least, ?_⟩)
    rcases nonneg_cases (coefficients report inside) with ⟨finite, nonneg⟩ | infinite
    · rw [(value_clamp ranged.min.finite ranged.max.finite finite).2, zero ranged.min least,
        max_eq_left nonneg]
      rcases own with own | own
      · rw [zero ⟨finite, nonneg, le_rfl⟩ own, min_eq_left ranged.positive.le]
        exact .inl rfl
      · exact .inr (min_le_min_right _ (above finite own))
    · rw [clamp_of_infinite ranged.min.finite ranged.max.finite infinite]
      exact .inr (min_le_right _ _)

theorem within_of_aggregate {consensus : Consensus Float}
    (passes : config.maxPasses = 0 ∨ (1e-150 ≤ config.tolerance ∧ config.tolerance ≤ 1e150) ∧
      ∀ report ∈ taking reports, config.Lifts report.coefficient)
    (returned : aggregate config reports = .ok consensus) :
    (∀ entry ∈ consensus.scores.entries, entry.2.isFinite = true) ∧
      ∀ entry ∈ consensus.coefficients.entries,
        Within 0 (2 * value config.maxCoefficient) entry.2 := by
  by_cases nobody : taking reports = []
  · rw [aggregate_of_nobody nobody] at returned
    cases returned
    constructor <;> intro entry inside <;> cases inside
  have ranged := config.ranged small
  obtain ⟨settled, count, levels, concluded⟩ := concluded_of_aggregate nobody returned
  have start := ongoing_clamped small stakes coefficients filled nobody concluded.stakes
  have ongoing : Ongoing config (lossKeys (taking reports)) settled := by
    have settles := concluded.settles
    rcases passes with none | ⟨⟨least, most⟩, lifts⟩
    · rw [none] at settles
      cases settles
      exact start
    · have tolerance := within_of_between floor_le.1 within_ceiling.finite least most
      exact ongoing_of_settle ranged (tolerance.mono floor_le.2 within_ceiling.le_high) start
        (lifted_clamped small coefficients lifts) settles
  rw [concluded.concludes]
  constructor <;> intro entry inside
  · obtain ⟨report, member, rfl⟩ := List.mem_map.mp (Table.mem_of_mem_entries_ofList inside)
    have deviation := ongoing.within_deviation ranged concluded.leveled member
    have bound := representable_two_zpow (k := 91) (by norm_num) (by norm_num)
    refine ((roundsTo_sub value_zero.1 deviation.finite).within
      ⟨bound.neg, representable_zero, ?_, ?_⟩).finite
    · rw [value_zero.2]
      linarith [deviation.le_high]
    · rw [value_zero.2]
      linarith [deviation.low_le]
  · obtain ⟨report, member, rfl⟩ := List.mem_map.mp (Table.mem_of_mem_entries_ofList inside)
    exact ongoing.coefficients report member

end Aggregate

end RoundScoring.Consensus
