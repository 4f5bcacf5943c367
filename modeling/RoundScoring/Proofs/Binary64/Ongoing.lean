import RoundScoring.Proofs.Binary64.Overflowing
import RoundScoring.Proofs.Binary64.Passes

/-!
Reports in the course of passes, in binary64 numbers. However many there are and whatever they say,
levels that could be computed are bounded because logarithms are, and so are the deviations from
them. Only stakes and coefficients that are huge, or no numbers, are kept out.
-/

namespace RoundScoring.Consensus

open Binary64 Scalar

theorem within_ceiling : Within 0 (2 ^ (499 : ℤ)) 1e150 := by
  have known : content 1e150 = .finite false 5503284107318959 446 := by decide +kernel
  obtain ⟨finite, worth⟩ := value_of_content known
  refine ⟨finite, ?_, ?_⟩ <;> rw [worth]
  · norm_num
  · rw [show (499 : ℤ) = 53 + 446 by norm_num, zpow_add₀ two_ne_zero]
    norm_num

section Levels

variable {most : ℝ} {reports : List (Report Float)}

theorem within_of_weightedLogLoss {weights losses : List Float} {level : Float}
    (each : ∀ w ∈ weights, Within 0 most w)
    (found : Loss.weightedLogLoss weights losses = .ok level) :
    Within (-2 ^ (63 : ℤ)) (2 ^ (63 : ℤ)) level := by
  unfold Loss.weightedLogLoss at found
  split_ifs at found with uneven empty negative nothing improper
  cases found
  simp only [not_exists, not_and, not_not] at improper
  apply within_sum_of_any (k := 9) (by norm_num) (by norm_num)
  intro term inside
  rw [← List.map_uncurry_zip_eq_zipWith] at inside
  obtain ⟨⟨w, x⟩, paired, rfl⟩ := List.mem_map.mp inside
  obtain ⟨left, right⟩ := List.of_mem_zip paired
  have share := within_share_of_any each nothing left
  obtain ⟨finite, positive⟩ := isLoss_iff.mp (improper x right)
  have log := within_logarithm finite positive
  have size : |value (w / weights.sum) * value (logarithm x)| ≤ 512 := by
    have wide : |value (logarithm x)| ≤ 512 := by
      have low := log.low_le
      have high := log.le_high
      push_cast at low high
      exact abs_le.mpr ⟨by linarith, by linarith⟩
    rw [abs_mul, abs_of_nonneg share.low_le]
    exact (mul_le_of_le_one_left (abs_nonneg _) share.le_high).trans wide
  have bounds := abs_le.mp size
  have product : Within (-512 : ℤ) (512 : ℤ) (w / weights.sum * logarithm x) :=
    (roundsTo_mul share.finite log.finite).within_int (by norm_num) (by norm_num)
      (by exact_mod_cast bounds.1) (by exact_mod_cast bounds.2)
  exact product.mono (by norm_num) (by norm_num)

theorem within_weights {bound : ℝ} (least : 1 ≤ bound)
    (stakes : ∀ report ∈ reports, Within 0 bound report.stake)
    (listened : ∀ report ∈ reports, Within 0 bound (report.stake * report.coefficient)) :
    ∀ w ∈ weights reports, Within 0 bound w := by
  unfold weights
  dsimp only
  split_ifs
  · exact List.forall_mem_map.mpr fun _ _ => within_one.mono le_rfl least
  · exact List.forall_mem_map.mpr stakes
  · exact List.forall_mem_map.mpr listened

end Levels

structure Config.Ranged (config : Config Float) : Prop where
  min : Within 0 (value config.maxCoefficient) config.minCoefficient
  max : Within 0 (2 ^ (499 : ℤ)) config.maxCoefficient
  positive : 0 < value config.maxCoefficient
  damping : Within 0 1 config.damping

/-- The upper end says it all, because the checks of a config say the rest. -/
theorem Config.ranged (config : Config Float) (small : config.maxCoefficient ≤ 1e150) :
    config.Ranged := by
  have ceiling := within_ceiling
  obtain ⟨min, max, ordered⟩ :=
    within_of_less ceiling.finite config.min_nonneg config.min_lt_max small
  have damping := within_of_between value_zero.1 value_one.1 config.damping_nonneg
    config.damping_le_one
  rw [value_zero.2, value_one.2] at damping
  exact ⟨min, max.mono le_rfl ceiling.le_high, min.low_le.trans_lt ordered, damping⟩

theorem Config.Ranged.representable_twice {config : Config Float} (ranged : config.Ranged) :
    Representable (2 * value config.maxCoefficient) := by
  obtain ⟨⟨k, e, few, least, same⟩, -⟩ := representable_value ranged.max.finite
  refine ⟨⟨k, e + 1, few, by omega, ?_⟩, ?_⟩
  · rw [same, zpow_add_one₀ two_ne_zero]
    ring
  · rw [abs_of_nonneg (by linarith [ranged.positive])]
    calc 2 * value config.maxCoefficient ≤ 2 * 2 ^ (499 : ℤ) := by linarith [ranged.max.le_high]
      _ = 2 ^ (1 + 499 : ℤ) := (zpow_one_add₀ two_ne_zero _).symm
      _ < 2 ^ (1024 : ℤ) := zpow_lt_zpow_right₀ one_lt_two (by norm_num)

/-- Reports in the course of passes over some keys. Stakes are not huge, there are losses under the
keys and all of them are proper, and coefficients are hardly above the range. -/
structure Ongoing (config : Config Float) (keys : OrderedSet LossKey)
    (reports : List (Report Float)) : Prop where
  somebody : reports ≠ []
  stakes : ∀ report ∈ reports, Within 0 (2 ^ (499 : ℤ)) report.stake
  filled : ∀ report ∈ reports, report.coverage.losses.entries ≠ []
  proper : ∀ report ∈ reports, ∀ entry ∈ report.coverage.losses.entries, IsLoss entry.2
  known : ∀ report ∈ reports, ∀ key ∈ report.coverage.losses.keys, key ∈ keys
  coefficients : ∀ report ∈ reports,
    Within 0 (2 * value config.maxCoefficient) report.coefficient

namespace Ongoing

variable {config : Config Float} {keys : OrderedSet LossKey} {reports : List (Report Float)}

theorem of_same {moved : List (Report Float)} (ongoing : Ongoing config keys reports)
    (same : SameButCoefficients reports moved)
    (coefficients : ∀ report ∈ moved, Within 0 (2 * value config.maxCoefficient) report.coefficient) :
    Ongoing config keys moved := by
  have stakes : ∀ stake ∈ moved.map Report.stake, Within 0 (2 ^ (499 : ℤ)) stake := by
    rw [same.map_stake]
    exact List.forall_mem_map.mpr ongoing.stakes
  have coverages : ∀ coverage ∈ moved.map Report.coverage, coverage.losses.entries ≠ [] ∧
      (∀ entry ∈ coverage.losses.entries, IsLoss entry.2) ∧
      ∀ key ∈ coverage.losses.keys, key ∈ keys := by
    rw [same.map_coverage]
    exact List.forall_mem_map.mpr fun report inside =>
      ⟨ongoing.filled report inside, ongoing.proper report inside, ongoing.known report inside⟩
  rw [List.forall_mem_map] at stakes coverages
  refine ⟨fun nobody => ongoing.somebody ?_, stakes, fun report inside => (coverages report inside).1,
    fun report inside => (coverages report inside).2.1,
    fun report inside => (coverages report inside).2.2, coefficients⟩
  have lengths := congrArg List.length same.map_stake
  rw [nobody, List.length_map, List.length_map, List.length_nil] at lengths
  exact List.eq_nil_of_length_eq_zero lengths.symm

variable (ongoing : Ongoing config keys reports) (ranged : config.Ranged)

include ongoing

theorem isLoss {report : Report Float} (inside : report ∈ reports) {key : LossKey} {loss : Float}
    (known : report.lossAt? key = some loss) : IsLoss loss :=
  ongoing.proper report inside (key, loss) (Table.mem_entries_of_get? known)

include ranged

theorem within_listened {report : Report Float} (inside : report ∈ reports) :
    Within 0 (2 ^ (999 : ℤ)) (report.stake * report.coefficient) := by
  have stake := ongoing.stakes report inside
  have coefficient := ongoing.coefficients report inside
  have bound := representable_two_zpow (k := 999) (by norm_num) (by norm_num)
  refine (roundsTo_mul stake.finite coefficient.finite).within
    ⟨representable_zero, bound, mul_nonneg stake.low_le coefficient.low_le, ?_⟩
  have most : value report.coefficient ≤ 2 ^ (500 : ℤ) := by
    rw [show (500 : ℤ) = 1 + 499 by norm_num, zpow_one_add₀ two_ne_zero]
    linarith [coefficient.le_high, ranged.max.le_high]
  calc value report.stake * value report.coefficient ≤ 2 ^ (499 : ℤ) * 2 ^ (500 : ℤ) :=
        mul_le_mul stake.le_high most coefficient.low_le (two_zpow_pos _).le
    _ = 2 ^ (999 : ℤ) := by rw [← zpow_add₀ two_ne_zero]; norm_num

theorem within_levels {levels : List (LossKey × Float)} (leveled : levelsOf keys reports = .ok levels) :
    ∀ entry ∈ levels, Within (-2 ^ (63 : ℤ)) (2 ^ (63 : ℤ)) entry.2 := by
  intro entry inside
  obtain ⟨key, -, made⟩ := exists_left_of_forall₂ (Fault.mapM_eq_ok_iff.mp leveled) inside
  obtain ⟨level, found, packed⟩ := Fault.bind_eq_ok_iff.mp made
  cases packed
  have heard : ∀ report ∈ (reporters reports key).map Prod.fst, report ∈ reports := by
    intro report member
    exact (sublist_reporters reports key).subset member
  have bounded : ∀ w ∈ weights ((reporters reports key).map Prod.fst), Within 0 (2 ^ (999 : ℤ)) w := by
    apply within_weights (one_le_zpow₀ one_le_two (by norm_num))
    · intro report member
      exact (ongoing.stakes report (heard report member)).mono le_rfl
        (zpow_le_zpow_right₀ one_le_two (by norm_num))
    · intro report member
      exact ongoing.within_listened ranged (heard report member)
  exact within_of_weightedLogLoss bounded found

theorem within_deviation {levels : List (LossKey × Float)}
    (leveled : levelsOf keys reports = .ok levels) {report : Report Float} (inside : report ∈ reports) :
    Within 0 (2 ^ (91 : ℤ)) (deviation levels report) := by
  rw [deviation_eq_rootMeanSquare]
  apply within_rootMeanSquare_of_any (k := 64) (by norm_num)
  · obtain ⟨⟨key, loss⟩, own⟩ := List.exists_mem_of_ne_nil _ (ongoing.filled report inside)
    have member := ongoing.known report inside key (List.mem_map_of_mem own)
    rw [OrderedSet.mem_def, ← map_fst_of_levelsOf leveled] at member
    obtain ⟨entry, listed, same⟩ := List.mem_map.mp member
    refine List.ne_nil_of_mem (mem_distances.mpr ⟨entry, listed, loss, ?_, rfl⟩)
    rw [same]
    exact Table.get?_of_mem_entries own
  · intro x listed
    obtain ⟨entry, member, loss, found, rfl⟩ := mem_distances.mp listed
    obtain ⟨finite, positive⟩ := isLoss_iff.mp (ongoing.isLoss inside found)
    have log := within_logarithm finite positive
    have level := ongoing.within_levels ranged leveled entry member
    have bound := representable_two_zpow (k := 64) (by norm_num) (by norm_num)
    have low := log.low_le
    have high := log.le_high
    have lower := level.low_le
    have upper := level.le_high
    push_cast at low high
    norm_num at lower upper
    refine (roundsTo_sub log.finite level.finite).within ⟨bound.neg, bound, ?_, ?_⟩
    · norm_num
      linarith
    · norm_num
      linarith

end Ongoing

end RoundScoring.Consensus
