import RoundScoring.Proofs.Consensus.Definition

/-!
Units do not matter. With all stakes counted in another unit, and the losses under each key in a unit of
that key, a round in exact arithmetic runs as before: every level is shifted by the logarithm of its
factor, and so is every logarithm that it is compared with. Weights are all scaled alike or all equal,
so shares of weight stay as they are.
-/

namespace RoundScoring

namespace Table

variable {κ α β : Type}

def mapValues (f : κ → α → β) (t : Table κ α) : Table κ β :=
  ⟨t.entries.map fun e => (e.1, f e.1 e.2), by
    rw [List.map_map]
    exact t.distinct⟩

@[simp] theorem entries_mapValues (f : κ → α → β) (t : Table κ α) :
    (t.mapValues f).entries = t.entries.map fun e => (e.1, f e.1 e.2) := rfl

@[simp] theorem keys_mapValues (f : κ → α → β) (t : Table κ α) :
    (t.mapValues f).keys = t.keys := by
  unfold keys
  rw [entries_mapValues, List.map_map]
  rfl

@[simp] theorem get?_mapValues [DecidableEq κ] (f : κ → α → β) (t : Table κ α) (k : κ) :
    (t.mapValues f).get? k = (t.get? k).map (f k) := by
  cases found : t.get? k with
  | some v =>
    apply get?_of_mem_entries
    exact List.mem_map.mpr ⟨(k, v), mem_entries_of_get? found, rfl⟩
  | none =>
    rw [get?_eq_none_iff] at found
    rw [Option.map_none, get?_eq_none_iff, keys_mapValues]
    exact found

end Table

namespace Consensus

open Scalar

noncomputable section

def Report.inUnits (unit : ℝ) (factor : LossKey → ℝ) (report : Report ℝ) : Report ℝ :=
  { report with
    coverage := { report.coverage with
      losses := report.coverage.losses.mapValues fun key loss => loss * factor key }
    stake := report.stake * unit }

def shifted (factor : LossKey → ℝ) (levels : List (LossKey × ℝ)) : List (LossKey × ℝ) :=
  levels.map fun (key, level) => (key, level + log10 (factor key))

/-- A consensus as it is when losses are in other units. -/
def inUnits (factor : LossKey → ℝ) (consensus : Consensus ℝ) : Consensus ℝ :=
  { consensus with
    levels := consensus.levels.mapValues fun key level => level + log10 (factor key) }

end

def Logarithmic (reports : List (Report ℝ)) : Prop :=
  ∀ report ∈ reports, ∀ entry ∈ report.coverage.losses.entries, 0 < entry.2

variable {unit : ℝ} {factor : LossKey → ℝ}

theorem log10_mul {loss scale : ℝ} (proper : 0 < loss) (positive : 0 < scale) :
    log10 (loss * scale) = log10 loss + log10 scale :=
  Real.logb_mul proper.ne' positive.ne'

theorem lossAt?_inUnits (unit : ℝ) (factor : LossKey → ℝ) (report : Report ℝ) (key : LossKey) :
    (report.inUnits unit factor).lossAt? key = (report.lossAt? key).map (· * factor key) :=
  Table.get?_mapValues _ _ _

theorem lossKeys_inUnits (unit : ℝ) (factor : LossKey → ℝ) (reports : List (Report ℝ)) :
    lossKeys (reports.map (Report.inUnits unit factor)) = lossKeys reports := by
  unfold lossKeys
  rw [List.flatMap_map]
  simp only [Report.inUnits, Table.keys_mapValues]

theorem reporters_inUnits (unit : ℝ) (factor : LossKey → ℝ) (reports : List (Report ℝ))
    (key : LossKey) :
    reporters (reports.map (Report.inUnits unit factor)) key =
      (reporters reports key).map fun heard =>
        (heard.1.inUnits unit factor, heard.2 * factor key) := by
  unfold reporters
  rw [List.filterMap_map, List.map_filterMap]
  congr 1
  funext report
  simp only [Function.comp_apply, lossAt?_inUnits, Option.map_map]
  rfl

section Scaling

variable (factor_pos : ∀ key, 0 < factor key)

include factor_pos

theorem takesPart_inUnits (unit : ℝ) (report : Report ℝ) :
    (report.inUnits unit factor).takesPart = report.takesPart := by
  rw [Bool.eq_iff_iff, takesPart_iff, takesPart_iff]
  refine and_congr_right fun _ => ?_
  refine List.forall_mem_map.trans (forall₂_congr fun entry _ => ?_)
  exact mul_pos_iff_of_pos_right (factor_pos entry.1)

theorem taking_inUnits (unit : ℝ) (reports : List (Report ℝ)) :
    taking (reports.map (Report.inUnits unit factor)) =
      (taking reports).map (Report.inUnits unit factor) := by
  unfold taking
  rw [List.filter_map]
  refine congrArg _ (List.filter_congr fun report _ => ?_)
  exact takesPart_inUnits factor_pos unit report

theorem left_inUnits (unit : ℝ) (reports : List (Report ℝ)) :
    left (reports.map (Report.inUnits unit factor)) = left reports := by
  unfold left
  rw [List.filter_map, List.map_map]
  have same : reports.filter ((!·.takesPart) ∘ Report.inUnits unit factor) =
      reports.filter (!·.takesPart) :=
    List.filter_congr fun report _ => congrArg (! ·) (takesPart_inUnits factor_pos unit report)
  rw [same]
  rfl

end Scaling

theorem proper_of_weightedLogLoss {weights losses : List ℝ} {level : ℝ}
    (found : Loss.weightedLogLoss weights losses = .ok level) :
    (∀ w ∈ weights, 0 ≤ w) ∧ 0 < weights.sum ∧ ∀ x ∈ losses, 0 < x := by
  unfold Loss.weightedLogLoss at found
  split_ifs at found with uneven empty negative nothing improper
  simp only [isLoss_iff_pos, not_exists, not_and, not_lt, not_le] at negative improper
  exact ⟨negative, not_le.mp nothing, improper⟩

theorem weightedLogLoss_scaled {α : Type} {l : List α} {w x : α → ℝ} {scale common level : ℝ}
    (scale_pos : 0 < scale) (common_pos : 0 < common)
    (found : Loss.weightedLogLoss (l.map w) (l.map x) = .ok level) :
    Loss.weightedLogLoss (l.map fun a => w a * scale) (l.map fun a => x a * common) =
      .ok (level + log10 common) := by
  obtain ⟨nonneg, positive, proper⟩ := proper_of_weightedLogLoss found
  rw [List.forall_mem_map] at nonneg proper
  rw [weightedLogLoss_map nonneg positive proper] at found
  cases found
  have total : (l.map fun a => w a * scale).sum = (l.map w).sum * scale :=
    List.sum_map_mul_right l w scale
  rw [weightedLogLoss_map (fun a inside => mul_nonneg (nonneg a inside) scale_pos.le)
    (total ▸ mul_pos positive scale_pos) fun a inside => mul_pos (proper a inside) common_pos, total]
  congr 1
  have shares : (l.map fun a => w a / (l.map w).sum).sum = 1 := by
    simp only [div_eq_mul_inv]
    rw [List.sum_map_mul_right, mul_inv_cancel₀ positive.ne']
  calc (l.map fun a => w a * scale / ((l.map w).sum * scale) * log10 (x a * common)).sum
      = (l.map fun a => w a / (l.map w).sum * log10 (x a) +
          w a / (l.map w).sum * log10 common).sum := by
        refine congrArg _ (List.map_congr_left fun a inside => ?_)
        rw [mul_div_mul_right _ _ scale_pos.ne', log10_mul (proper a inside) common_pos, mul_add]
    _ = (l.map fun a => w a / (l.map w).sum * log10 (x a)).sum + log10 common := by
        rw [List.sum_map_add, List.sum_map_mul_right, shares, one_mul]

theorem weighing_inUnits (unit_pos : 0 < unit) (factor : LossKey → ℝ) (reports : List (Report ℝ)) :
    ∃ scale, 0 < scale ∧ ∀ report,
      weighing (reports.map (Report.inUnits unit factor)) (report.inUnits unit factor) =
        weighing reports report * scale := by
  have listened : ((reports.map (Report.inUnits unit factor)).map fun report =>
      report.stake * report.coefficient).sum =
        (reports.map fun report => report.stake * report.coefficient).sum * unit := by
    rw [List.map_map, ← List.sum_map_mul_right]
    exact congrArg _ (List.map_congr_left fun report _ => mul_right_comm _ _ _)
  have staked : ((reports.map (Report.inUnits unit factor)).map Report.stake).sum =
      (reports.map Report.stake).sum * unit := by
    rw [List.map_map, ← List.sum_map_mul_right]
    rfl
  have nothing : ∀ total : ℝ, total * unit ≤ 0 ↔ total ≤ 0 := by
    intro total
    rw [← not_lt, ← not_lt, mul_pos_iff_of_pos_right unit_pos]
  unfold weighing
  simp only [listened, staked, nothing]
  split
  next =>
    split
    next => exact ⟨1, one_pos, fun _ => (mul_one 1).symm⟩
    next => exact ⟨unit, unit_pos, fun _ => rfl⟩
  next => exact ⟨unit, unit_pos, fun _ => mul_right_comm _ _ _⟩

section Running

variable (unit_pos : 0 < unit) (factor_pos : ∀ key, 0 < factor key) {reports : List (Report ℝ)}

include unit_pos factor_pos

theorem levelAt_inUnits {key : LossKey} {level : ℝ} (found : levelAt reports key = .ok level) :
    levelAt (reports.map (Report.inUnits unit factor)) key = .ok (level + log10 (factor key)) := by
  unfold levelAt at found ⊢
  dsimp only at found ⊢
  rw [reporters_inUnits]
  generalize reporters reports key = heard at found ⊢
  obtain ⟨scale, scale_pos, scaled⟩ := weighing_inUnits unit_pos factor (heard.map Prod.fst)
  have weighed : weights ((heard.map fun h => (h.1.inUnits unit factor, h.2 * factor key)).map
      Prod.fst) = heard.map fun h => weighing (heard.map Prod.fst) h.1 * scale := by
    have reported : (heard.map fun h => (h.1.inUnits unit factor, h.2 * factor key)).map Prod.fst =
        (heard.map Prod.fst).map (Report.inUnits unit factor) := by
      rw [List.map_map, List.map_map]
      rfl
    rw [reported, weights_eq_map]
    refine List.map_map.trans (List.map_map.trans ?_)
    exact List.map_congr_left fun h _ => scaled h.1
  rw [weights_eq_map, List.map_map] at found
  rw [weighed, List.map_map]
  exact weightedLogLoss_scaled scale_pos (factor_pos key) found

theorem levelsOf_inUnits {keys : OrderedSet LossKey} {levels : List (LossKey × ℝ)}
    (found : levelsOf keys reports = .ok levels) :
    levelsOf keys (reports.map (Report.inUnits unit factor)) = .ok (shifted factor levels) := by
  refine Fault.mapM_eq_ok_iff.mpr (List.forall₂_map_right_iff.mpr ?_)
  refine (Fault.mapM_eq_ok_iff.mp found).imp fun key entry made => ?_
  obtain ⟨level, leveled, packed⟩ := Fault.bind_eq_ok_iff.mp made
  cases packed
  exact Fault.bind_eq_ok_iff.mpr ⟨_, levelAt_inUnits unit_pos factor_pos leveled, rfl⟩

omit unit_pos in
theorem deviation_inUnits {report : Report ℝ}
    (proper : ∀ entry ∈ report.coverage.losses.entries, 0 < entry.2) (unit : ℝ)
    (levels : List (LossKey × ℝ)) :
    deviation (shifted factor levels) (report.inUnits unit factor) = deviation levels report := by
  unfold deviation shifted
  rw [List.filterMap_map]
  refine congrArg _ (List.filterMap_congr fun entry _ => ?_)
  obtain ⟨key, level⟩ := entry
  simp only [Function.comp_apply, lossAt?_inUnits, Option.map_map]
  refine Option.map_congr fun loss found => ?_
  rw [Function.comp_apply, log10_mul (proper _ (mem_entries_of_lossAt? found)) (factor_pos key),
    add_sub_add_right_eq_sub]

end Running

theorem rescaled_inUnits (unit : ℝ) (factor : LossKey → ℝ) (config : Config ℝ)
    (reports : List (Report ℝ)) :
    rescaled config (reports.map (Report.inUnits unit factor)) =
      (rescaled config reports).map (Report.inUnits unit factor) := by
  unfold rescaled
  dsimp only
  rw [List.map_map]
  change (if 0 < greatest (reports.map Report.coefficient) then _ else _) = _
  split
  next =>
    rw [List.map_map, List.map_map]
    rfl
  next => rfl

theorem largestChange_inUnits (unit : ℝ) (factor : LossKey → ℝ) (before after : List (Report ℝ)) :
    largestChange (before.map (Report.inUnits unit factor))
      (after.map (Report.inUnits unit factor)) = largestChange before after := by
  unfold largestChange
  rw [List.zipWith_map]
  rfl

theorem checkStakes_inUnits (unit_pos : 0 < unit) (factor : LossKey → ℝ) {reports : List (Report ℝ)}
    (stakes : checkStakes reports = .ok ()) :
    checkStakes (reports.map (Report.inUnits unit factor)) = .ok () := by
  obtain ⟨nonneg, positive⟩ := checkStakes_eq_ok_iff.mp stakes
  refine checkStakes_eq_ok_iff.mpr ⟨List.forall_mem_map.mpr fun report inside => ?_, ?_⟩
  · exact mul_nonneg (nonneg report inside) unit_pos.le
  · rw [List.map_map]
    change 0 < (reports.map fun report => report.stake * unit).sum
    rw [List.sum_map_mul_right]
    exact mul_pos positive unit_pos

theorem Logarithmic.of_same {before after : List (Report ℝ)} (proper : Logarithmic before)
    (same : SameButCoefficients before after) : Logarithmic after := by
  intro report inside
  have listed : report.coverage ∈ after.map Report.coverage := List.mem_map_of_mem inside
  rw [same.map_coverage] at listed
  obtain ⟨old, member, covered⟩ := List.mem_map.mp listed
  rw [← covered]
  exact proper old member

theorem logarithmic_taking (reports : List (Report ℝ)) : Logarithmic (taking reports) :=
  fun report inside => ((takesPart_iff report).mp (List.mem_filter.mp inside).2).2

section Running

variable (unit_pos : 0 < unit) (factor_pos : ∀ key, 0 < factor key) {config : Config ℝ}
  {keys : OrderedSet LossKey} {reports : List (Report ℝ)}

include unit_pos factor_pos

theorem pass_inUnits (proper : Logarithmic reports) {moved : List (Report ℝ)}
    (passed : pass config keys reports = .ok moved) :
    pass config keys (reports.map (Report.inUnits unit factor)) =
      .ok (moved.map (Report.inUnits unit factor)) := by
  obtain ⟨levels, leveled, packed⟩ := Fault.bind_eq_ok_iff.mp passed
  cases packed
  refine Fault.bind_eq_ok_iff.mpr ⟨_, levelsOf_inUnits unit_pos factor_pos leveled, ?_⟩
  have rated : (reports.map (Report.inUnits unit factor)).map (fun report =>
      (report, agreement config (deviation (shifted factor levels) report))) =
        (reports.map fun report => (report, agreement config (deviation levels report))).map
          fun (report, agreed) => (report.inUnits unit factor, agreed) := by
    rw [List.map_map, List.map_map]
    refine List.map_congr_left fun report inside => ?_
    simp only [Function.comp_apply, deviation_inUnits factor_pos (proper report inside)]
  rw [rated]
  generalize reports.map (fun report => (report, agreement config (deviation levels report))) = ratings
  dsimp only
  rw [← rescaled_inUnits, List.map_map, List.map_map, List.map_map]
  rfl

theorem settle_inUnits {remaining done passes : Nat} {settled : List (Report ℝ)}
    (proper : Logarithmic reports)
    (settles : settle config keys remaining reports done = .ok (settled, passes)) :
    settle config keys remaining (reports.map (Report.inUnits unit factor)) done =
      .ok (settled.map (Report.inUnits unit factor), passes) := by
  -- On the passes that remain: each moves the coefficients as it did in the other units.
  induction remaining generalizing reports done with
  | zero =>
    cases settles
    rfl
  | succ remaining ih =>
    obtain ⟨moved, passed, rest⟩ := Fault.bind_eq_ok_iff.mp settles
    refine Fault.bind_eq_ok_iff.mpr ⟨_, pass_inUnits unit_pos factor_pos proper passed, ?_⟩
    rw [largestChange_inUnits]
    split at rest
    next small =>
      cases rest
      exact if_pos small
    next large => exact (if_neg large).trans (ih (proper.of_same (pass_same passed)) rest)

omit unit_pos in
theorem conclude_inUnits (unit : ℝ) {levels : List (LossKey × ℝ)} {settled : List (Report ℝ)}
    (distinct : (levels.map Prod.fst).Nodup) (proper : Logarithmic settled)
    (excluded : List Address) (passes : Nat) :
    conclude (shifted factor levels) (settled.map (Report.inUnits unit factor)) excluded passes =
      inUnits factor (conclude levels settled excluded passes) := by
  have deviated : ∀ value : ℝ → ℝ, (settled.map (Report.inUnits unit factor)).map (fun report =>
      (report.reputer, value (deviation (shifted factor levels) report))) =
        settled.map fun report => (report.reputer, value (deviation levels report)) := by
    intro value
    rw [List.map_map]
    refine List.map_congr_left fun report inside => ?_
    exact congrArg (fun x => (report.reputer, value x))
      (deviation_inUnits factor_pos (proper report inside) unit levels)
  have listened : (settled.map (Report.inUnits unit factor)).map (fun report =>
      (report.reputer, report.coefficient)) =
        settled.map fun report => (report.reputer, report.coefficient) := by
    rw [List.map_map]
    rfl
  have levelled : Table.ofList (shifted factor levels) =
      (Table.ofList levels).mapValues fun key level => level + log10 (factor key) := by
    have keys : (shifted factor levels).map Prod.fst = levels.map Prod.fst := by
      unfold shifted
      rw [List.map_map]
      rfl
    apply Table.ext
    rw [Table.entries_mapValues, Table.entries_ofList distinct, Table.entries_ofList (keys ▸ distinct)]
    rfl
  unfold conclude inUnits
  rw [deviated fun x => 0 - x, deviated fun x => x, listened, levelled]

/-- A consensus comes about as it did before, and is read in the other units. -/
theorem units_do_not_matter {consensus : Consensus ℝ}
    (returned : aggregate config reports = .ok consensus) :
    aggregate config (reports.map (Report.inUnits unit factor)) = .ok {
      consensus with
      levels := consensus.levels.mapValues fun key level => level + Real.logb 10 (factor key) } := by
  change _ = Except.ok (inUnits factor consensus)
  by_cases nobody : taking reports = []
  · rw [aggregate_of_nobody nobody] at returned
    cases returned
    have nobody' : taking (reports.map (Report.inUnits unit factor)) = [] := by
      rw [taking_inUnits factor_pos, nobody, List.map_nil]
    rw [aggregate_of_nobody nobody', left_inUnits factor_pos]
    rfl
  · obtain ⟨settled, passes, levels, stakes, settles, leveled, rfl⟩ :=
      concluded_of_aggregate nobody returned
    have proper := logarithmic_taking reports
    have clamped : Logarithmic ((taking reports).map (Report.clamped config)) := by
      apply proper.of_same
      simp [SameButCoefficients, Function.comp_def]
    have listed : ((taking reports).map (Report.inUnits unit factor)).map (Report.clamped config) =
        ((taking reports).map (Report.clamped config)).map (Report.inUnits unit factor) := by
      rw [List.map_map, List.map_map]
      rfl
    have somebody' : taking (reports.map (Report.inUnits unit factor)) ≠ [] := by
      rw [taking_inUnits factor_pos, ne_eq, List.map_eq_nil_iff]
      exact nobody
    have concluded : Concluded config (reports.map (Report.inUnits unit factor))
        (inUnits factor (conclude levels settled (left reports) passes))
        (settled.map (Report.inUnits unit factor)) passes (shifted factor levels) := by
      refine ⟨?_, ?_, ?_, ?_⟩
      · rw [taking_inUnits factor_pos]
        exact checkStakes_inUnits unit_pos factor stakes
      · rw [taking_inUnits factor_pos, lossKeys_inUnits, listed]
        exact settle_inUnits unit_pos factor_pos clamped settles
      · rw [taking_inUnits factor_pos, lossKeys_inUnits]
        exact levelsOf_inUnits unit_pos factor_pos leveled
      · have distinct : (levels.map Prod.fst).Nodup := by
          rw [map_fst_of_levelsOf leveled]
          exact OrderedSet.nodup_toList _
        rw [left_inUnits factor_pos]
        exact (conclude_inUnits factor_pos unit distinct (clamped.of_same (settle_same settles)) _ _).symm
    exact concluded.aggregate_eq_ok somebody'

end Running

/-- Stakes in thirds, and losses of the whole network in tenths. -/
theorem units_of_two_do_not_matter :
    ∃ consensus,
      aggregate (.onePass 1 zero_le_one le_rfl) [.lone 1 1 1 1, .lone 2 3 10 (1 / 2)] =
        .ok consensus ∧
      aggregate (.onePass 1 zero_le_one le_rfl)
        ([.lone 1 1 1 1, .lone 2 3 10 (1 / 2)].map
          (Report.inUnits 3 fun key => if key = .whole .combined then 10 else 1)) = .ok {
        consensus with
        levels := consensus.levels.mapValues fun key level =>
          level + Real.logb 10 (if key = .whole .combined then 10 else 1) } := by
  have all : taking [.lone 1 1 1 1, .lone 2 3 10 (1 / 2)] =
      [.lone 1 1 1 1, .lone 2 3 10 (1 / 2)] := by
    unfold taking
    rw [List.filter_cons_of_pos (takesPart_lone _ _ _ one_pos),
      List.filter_cons_of_pos (takesPart_lone _ _ _ (by norm_num)), List.filter_nil]
  have stakes : checkStakes (taking [.lone 1 1 1 1, .lone 2 3 10 (1 / 2)]) = .ok () := by
    rw [all, checkStakes_eq_ok_iff]
    norm_num [Report.lone]
  have returned := aggregate_of_stakes (.onePass 1 zero_le_one le_rfl)
    (by rw [all]; exact List.cons_ne_nil _ _) stakes
  have positive : ∀ key : LossKey, (0 : ℝ) < if key = .whole .combined then 10 else 1 := by
    intro key
    split <;> norm_num
  exact ⟨_, returned, units_do_not_matter three_pos positive returned⟩

end Consensus
end RoundScoring
