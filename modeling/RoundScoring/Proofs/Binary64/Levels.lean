import RoundScoring.Proofs.Binary64.Scalars
import RoundScoring.Proofs.Consensus.Levels

/-!
The levels of a consensus in binary64 numbers. Whatever proper losses are reported, each key has a
finite level, hardly outside the bounds of the logarithms under it, and each report a finite
deviation from the levels.
-/

namespace RoundScoring.Consensus

open Binary64 Scalar

section Weights

/-- Weights that a mean can be taken with. -/
structure Usable (weights : List Float) : Prop where
  nonneg : ∀ w ∈ weights, 0 ≤ value w
  finite : weights.sum.isFinite = true
  positive : 0 < value weights.sum

/-- Reports whose stakes are above zero and have a sum, with coefficients in the unit range. -/
structure Backed (reports : List (Report Float)) : Prop where
  stakes : ∀ report ∈ reports, 0 < value report.stake
  finite : (reports.map Report.stake).sum.isFinite = true
  coefficients : ∀ report ∈ reports, Within 0 1 report.coefficient

variable {reports : List (Report Float)}

namespace Backed

variable (backed : Backed reports)

include backed

theorem finite_stake {report : Report Float} (inside : report ∈ reports) :
    report.stake.isFinite = true :=
  (value_sum backed.finite).1 _ (List.mem_map_of_mem inside)

theorem nonneg_stakes : ∀ stake ∈ reports.map Report.stake, 0 ≤ value stake :=
  List.forall_mem_map.mpr fun report inside => (backed.stakes report inside).le

theorem atMost_listened {report : Report Float} (inside : report ∈ reports) :
    AtMost (report.stake * report.coefficient) report.stake := by
  have stake := backed.finite_stake inside
  have coefficient := backed.coefficients report inside
  have nonneg := (backed.stakes report inside).le
  have representable := representable_value stake
  have product : Within 0 (value report.stake) (report.stake * report.coefficient) := by
    refine (roundsTo_mul stake coefficient.finite).within ⟨representable_zero, representable, ?_, ?_⟩
    · exact mul_nonneg nonneg coefficient.low_le
    · exact mul_le_of_le_one_right nonneg coefficient.le_high
  exact ⟨product.finite, product.low_le, product.le_high⟩

theorem sublist {heard : List (Report Float)} (part : heard.Sublist reports) : Backed heard :=
  ⟨fun report inside => backed.stakes report (part.subset inside),
    isFinite_sum_of_sublist (part.map _) backed.nonneg_stakes backed.finite,
    fun report inside => backed.coefficients report (part.subset inside)⟩

theorem usable_stakes (somebody : reports ≠ []) : Usable (reports.map Report.stake) := by
  refine ⟨backed.nonneg_stakes, backed.finite, ?_⟩
  obtain ⟨report, inside⟩ := List.exists_mem_of_ne_nil reports somebody
  exact (backed.stakes report inside).trans_le
    (le_value_sum backed.nonneg_stakes backed.finite (List.mem_map_of_mem inside))

theorem usable_weights (somebody : reports ≠ []) : Usable (weights reports) := by
  have stakes := backed.usable_stakes somebody
  have listened : List.SublistForall₂ AtMost
      (reports.map fun report => report.stake * report.coefficient) (reports.map Report.stake) := by
    refine List.sublistForall₂_iff.mpr ⟨_, ?_, List.Sublist.refl _⟩
    rw [List.forall₂_map_left_iff, List.forall₂_map_right_iff, List.forall₂_same]
    exact fun report inside => backed.atMost_listened inside
  have sum := within_sum_of_le listened backed.nonneg_stakes backed.finite
  unfold weights
  dsimp only
  by_cases nothing : (reports.map fun report => report.stake * report.coefficient).sum ≤ 0
  · have some : ¬(reports.map Report.stake).sum ≤ 0 := by
      rw [le_iff stakes.finite value_zero.1, value_zero.2, not_le]
      exact stakes.positive
    rw [if_pos nothing, if_neg some]
    exact stakes
  · rw [if_neg nothing]
    refine ⟨List.forall_mem_map.mpr fun report inside => ?_, sum.finite, ?_⟩
    · exact (backed.atMost_listened inside).2.1
    · rwa [le_iff sum.finite value_zero.1, value_zero.2, not_le] at nothing

end Backed

theorem length_weights (reports : List (Report Float)) :
    (weights reports).length = reports.length := by
  unfold weights
  dsimp only
  split_ifs <;> exact List.length_map _

end Weights

theorem exists_weightedLogLoss {high : ℝ} (least : 1 ≤ high) (most : high ≤ 512)
    {weights losses : List Float} (few : weights.length ≤ 2 ^ 40)
    (lengths : weights.length = losses.length) (somebody : weights ≠ []) (usable : Usable weights)
    (proper : ∀ loss ∈ losses, IsLoss loss ∧ Within ((-5173 : ℤ) / 16) high (logarithm loss)) :
    ∃ level, Loss.weightedLogLoss weights losses = .ok level ∧
      Within (-647 / 2) (high * (1 + 1 / 2 ^ 11)) level := by
  have mean := within_weightedMean few (lengths.trans (List.length_map _).symm) usable.nonneg
    usable.finite usable.positive (by norm_num) ⟨least, most⟩
    (List.forall_mem_map.mpr fun loss inside => (proper loss inside).2)
  have negative : ¬∃ w ∈ weights, w < 0 := by
    rintro ⟨w, inside, below⟩
    rw [lt_iff ((value_sum usable.finite).1 w inside) value_zero.1, value_zero.2] at below
    exact below.not_ge (usable.nonneg w inside)
  have nothing : ¬weights.sum ≤ 0 := by
    rw [le_iff usable.finite value_zero.1, value_zero.2, not_le]
    exact usable.positive
  have improper : ¬∃ loss ∈ losses, ¬IsLoss loss :=
    fun ⟨loss, inside, not⟩ => not (proper loss inside).1
  unfold Loss.weightedLogLoss
  rw [if_neg (not_not.mpr lengths), if_neg somebody, if_neg negative, if_neg nothing, if_neg improper]
  rw [List.zipWith_map_right] at mean
  exact ⟨_, rfl, mean.mono (by norm_num) le_rfl⟩

theorem mem_reporters {R : Type} {reports : List (Report R)} {key : LossKey}
    {pair : Report R × R} :
    pair ∈ reporters reports key ↔ pair.1 ∈ reports ∧ pair.1.lossAt? key = some pair.2 := by
  unfold reporters
  rw [List.mem_filterMap]
  constructor
  · rintro ⟨report, inside, found⟩
    obtain ⟨loss, known, rfl⟩ := Option.map_eq_some_iff.mp found
    exact ⟨inside, known⟩
  · rintro ⟨inside, known⟩
    exact ⟨pair.1, inside, Option.map_eq_some_iff.mpr ⟨pair.2, known, rfl⟩⟩

theorem sublist_reporters {R : Type} (reports : List (Report R)) (key : LossKey) :
    ((reporters reports key).map Prod.fst).Sublist reports := by
  induction reports with
  | nil => exact .slnil
  | cons report reports ih =>
    unfold reporters at ih ⊢
    cases known : report.lossAt? key with
    | none =>
      rw [List.filterMap_cons_none (by rw [known]; rfl)]
      exact ih.cons report
    | some loss =>
      rw [List.filterMap_cons_some (by rw [known]; rfl)]
      exact ih.cons_cons report

/-- Losses that are proper, there are some and not too many, and no logarithm is above a bound. -/
structure Bounded (high : ℝ) (coverage : Coverage Float) : Prop where
  filled : coverage.losses.entries ≠ []
  few : coverage.losses.entries.length ≤ 2 ^ 20
  proper : ∀ entry ∈ coverage.losses.entries, IsLoss entry.2
  le_high : ∀ entry ∈ coverage.losses.entries, value (logarithm entry.2) ≤ high

namespace Bounded

variable {high : ℝ} {report : Report Float} (reported : Bounded high report.coverage) {key : LossKey}
  {loss : Float} (known : report.lossAt? key = some loss)

include reported known

theorem isLoss : IsLoss loss := reported.proper (key, loss) (Table.mem_entries_of_get? known)

theorem within_log : Within ((-5173 : ℤ) / 16) high (logarithm loss) := by
  obtain ⟨finite, positive⟩ := isLoss_iff.mp (reported.isLoss known)
  have log := within_logarithm finite positive
  exact ⟨log.finite, log.low_le, reported.le_high (key, loss) (Table.mem_entries_of_get? known)⟩

end Bounded

section Level

variable {high : ℝ} (least : 1 ≤ high) (most : high ≤ 512) {reports : List (Report Float)}
  (few : reports.length ≤ 2 ^ 40) (backed : Backed reports)
  (reported : ∀ report ∈ reports, Bounded high report.coverage)

include least most few backed reported

theorem exists_levelAt {key : LossKey}
    (heard : ∃ report ∈ reports, key ∈ report.coverage.losses.keys) :
    ∃ level, levelAt reports key = .ok level ∧
      Within (-647 / 2) (high * (1 + 1 / 2 ^ 11)) level := by
  have somebody : (reporters reports key).map Prod.fst ≠ [] := by
    obtain ⟨report, inside, own⟩ := heard
    obtain ⟨loss, known⟩ := mem_keys_iff_lossAt?.mp own
    have member : (report, loss) ∈ reporters reports key := mem_reporters.mpr ⟨inside, known⟩
    exact List.ne_nil_of_mem (List.mem_map_of_mem member)
  have part := sublist_reporters reports key
  have losses : ∀ loss ∈ (reporters reports key).map Prod.snd, ∃ report ∈ reports,
      report.lossAt? key = some loss := by
    refine List.forall_mem_map.mpr fun pair inside => ?_
    obtain ⟨member, known⟩ := mem_reporters.mp inside
    exact ⟨pair.1, member, known⟩
  refine exists_weightedLogLoss least most ?_ ?_ ?_ ((backed.sublist part).usable_weights somebody) ?_
  · rw [length_weights]
    exact part.length_le.trans few
  · rw [length_weights, List.length_map, List.length_map]
  · intro nobody
    exact somebody (List.eq_nil_of_length_eq_zero (by rw [← length_weights, nobody, List.length_nil]))
  · intro loss inside
    obtain ⟨report, member, known⟩ := losses loss inside
    exact ⟨(reported report member).isLoss known, (reported report member).within_log known⟩

theorem exists_levelsOf {keys : OrderedSet LossKey}
    (heard : ∀ key ∈ keys, ∃ report ∈ reports, key ∈ report.coverage.losses.keys) :
    ∃ levels, levelsOf keys reports = .ok levels ∧
      ∀ entry ∈ levels, Within (-647 / 2) (high * (1 + 1 / 2 ^ 11)) entry.2 := by
  have each := fun key inside => exists_levelAt least most few backed reported (heard key inside)
  obtain ⟨levels, leveled⟩ := Fault.exists_mapM_eq_ok fun key inside => by
    obtain ⟨level, found, -⟩ := each key inside
    exact Fault.exists_bind_eq_ok found ⟨(key, level), rfl⟩
  refine ⟨levels, leveled, fun entry inside => ?_⟩
  obtain ⟨key, member, made⟩ := exists_left_of_forall₂ (Fault.mapM_eq_ok_iff.mp leveled) inside
  obtain ⟨level, found, packed⟩ := Fault.bind_eq_ok_iff.mp made
  obtain ⟨bounded, found', within⟩ := each key member
  cases packed
  rw [found] at found'
  cases found'
  exact within

end Level

def distances (levels : List (LossKey × Float)) (report : Report Float) : List Float :=
  levels.filterMap fun entry => (report.lossAt? entry.1).map fun loss => logarithm loss - entry.2

theorem deviation_eq_rootMeanSquare (levels : List (LossKey × Float)) (report : Report Float) :
    deviation levels report = rootMeanSquare (distances levels report) := rfl

theorem mem_distances {levels : List (LossKey × Float)} {report : Report Float} {x : Float} :
    x ∈ distances levels report ↔ ∃ entry ∈ levels, ∃ loss, report.lossAt? entry.1 = some loss ∧
      logarithm loss - entry.2 = x := by
  unfold distances
  simp only [List.mem_filterMap, Option.map_eq_some_iff]

section Deviation

variable {report : Report Float} {levels : List (LossKey × Float)}

theorem length_distances_le (distinct : (levels.map Prod.fst).Nodup) :
    (distances levels report).length ≤ report.coverage.losses.entries.length := by
  unfold distances
  rw [List.length_filterMap_eq_countP, List.countP_eq_length_filter]
  set own := levels.filter fun entry => ((report.lossAt? entry.1).map fun loss =>
    logarithm loss - entry.2).isSome
  have single : (own.map Prod.fst).Nodup := distinct.sublist (List.filter_sublist.map _)
  have within : own.map Prod.fst ⊆ report.coverage.losses.keys := by
    refine fun key inside => ?_
    obtain ⟨entry, member, rfl⟩ := List.mem_map.mp inside
    have some := (List.mem_filter.mp member).2
    rw [Option.isSome_map] at some
    exact mem_keys_iff_lossAt?.mpr (Option.isSome_iff_exists.mp some)
  have count := (List.subperm_of_subset single within).length_le
  rwa [List.length_map, Table.keys, List.length_map] at count

variable {high : ℝ} (reported : Bounded high report.coverage)

include reported

theorem distances_ne_nil
    (known : ∀ key ∈ report.coverage.losses.keys, key ∈ levels.map Prod.fst) :
    distances levels report ≠ [] := by
  obtain ⟨⟨key, loss⟩, inside⟩ := List.exists_mem_of_ne_nil _ reported.filled
  obtain ⟨entry, member, same⟩ := List.mem_map.mp (known key (List.mem_map_of_mem inside))
  refine List.ne_nil_of_mem (mem_distances.mpr ⟨entry, member, loss, ?_, rfl⟩)
  rw [same]
  exact Table.get?_of_mem_entries inside

theorem within_deviation (most : high ≤ 4933 / 16) (distinct : (levels.map Prod.fst).Nodup)
    (known : ∀ key ∈ report.coverage.losses.keys, key ∈ levels.map Prod.fst)
    (bounded : ∀ entry ∈ levels, Within (-647 / 2) (high * (1 + 1 / 2 ^ 11)) entry.2) :
    Within 0 (2 ^ 10) (deviation levels report) := by
  rw [deviation_eq_rootMeanSquare]
  refine within_rootMeanSquare (distances_ne_nil reported known)
    ((length_distances_le distinct).trans reported.few) fun x inside => ?_
  obtain ⟨entry, member, loss, found, rfl⟩ := mem_distances.mp inside
  have log := reported.within_log found
  have level := bounded entry member
  have lowLog := log.low_le
  have difference : Within (-(2 ^ 10) : ℤ) (2 ^ 10 : ℤ) (logarithm loss - entry.2) := by
    refine (roundsTo_sub log.finite level.finite).within_int (by norm_num) (by norm_num) ?_ ?_
    · push_cast at lowLog ⊢
      linarith [level.le_high]
    · push_cast
      linarith [log.le_high, level.low_le]
  exact difference.mono (by norm_num) (by norm_num)

end Deviation

end RoundScoring.Consensus
