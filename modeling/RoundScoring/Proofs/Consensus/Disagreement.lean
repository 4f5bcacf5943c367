import RoundScoring.Proofs.Consensus.Network
import RoundScoring.Proofs.Consensus.Splitting
import RoundScoring.Proofs.Consensus.Thinning

/-!
What levels and scores say about the reports. A level is a mean, so it lies among the logarithms that
it was made of, whatever the weights have become. A score is the root mean square of distances to the
levels, so it is zero for a participant that is met at each of its keys, and some key of a participant
is disputed at least as widely as its score says.
-/

namespace RoundScoring.Consensus

open Scalar

namespace Panel

variable {ι : Type} [Fintype ι] {panel : Panel ι} {c : ι → ℝ}

theorem exists_deviation_le {i : ι} (measured : (panel.keys i).Nonempty) :
    ∃ key ∈ panel.keys i,
      panel.deviation c i ≤ |log10 (panel.loss i key) - panel.level c key| := by
  obtain ⟨key, own, farthest⟩ := Finset.exists_max_image (panel.keys i)
    (fun key => (log10 (panel.loss i key) - panel.level c key) ^ 2) measured
  refine ⟨key, own, ?_⟩
  have count : (0 : ℝ) < (panel.keys i).card := Nat.cast_pos.mpr measured.card_pos
  have mean : (∑ key ∈ panel.keys i, (log10 (panel.loss i key) - panel.level c key) ^ 2) /
      (panel.keys i).card ≤ (log10 (panel.loss i key) - panel.level c key) ^ 2 := by
    rw [div_le_iff₀ count, mul_comm, ← nsmul_eq_mul]
    exact Finset.sum_le_card_nsmul _ _ _ farthest
  calc
    panel.deviation c i ≤ √((log10 (panel.loss i key) - panel.level c key) ^ 2) :=
      Real.sqrt_le_sqrt mean
    _ = _ := Real.sqrt_sq_eq_abs _

theorem deviation_eq_zero_iff {i : ι} :
    panel.deviation c i = 0 ↔
      ∀ key ∈ panel.keys i, log10 (panel.loss i key) = panel.level c key := by
  have squares : ∀ key ∈ panel.keys i,
      0 ≤ (log10 (panel.loss i key) - panel.level c key) ^ 2 := fun _ _ => sq_nonneg _
  unfold deviation
  rw [Real.sqrt_eq_zero (div_nonneg (Finset.sum_nonneg squares) (Nat.cast_nonneg _)), div_eq_zero_iff,
    Finset.sum_eq_zero_iff_of_nonneg squares]
  simp only [sq_eq_zero_iff, sub_eq_zero, Nat.cast_eq_zero, Finset.card_eq_zero]
  constructor
  · rintro (met | nothing) key own
    · exact met key own
    · rw [nothing] at own
      exact absurd own (Finset.notMem_empty key)
  · exact .inl

end Panel

def reportedLogs (reports : List (Report ℝ)) (key : LossKey) : Set ℝ :=
  {x | ∃ report ∈ taking reports, ∃ loss, report.lossAt? key = some loss ∧ log10 loss = x}

/-- From where to where the losses under a key go, as logarithms. -/
structure Spans (reports : List (Report ℝ)) (key : LossKey) (low high : ℝ) : Prop where
  least : IsLeast (reportedLogs reports key) low
  greatest : IsGreatest (reportedLogs reports key) high

theorem Spans.abs_sub_le {reports : List (Report ℝ)} {key : LossKey} {low high x y : ℝ}
    (spans : Spans reports key low high) (reported : x ∈ reportedLogs reports key)
    (above : low ≤ y) (below : y ≤ high) : |x - y| ≤ high - low := by
  have inside := spans.least.2 reported
  have inside' := spans.greatest.2 reported
  exact abs_sub_le_of_le_of_le inside inside' above below

variable {config : Config ℝ} {reports : List (Report ℝ)} {consensus : Consensus ℝ} {key : LossKey}

theorem lossAt?_get_iff {i : Fin (taking reports).length} {loss : ℝ} :
    ((taking reports).get i).lossAt? key = some loss ↔
      key ∈ (roundPanel reports).keys i ∧ (roundPanel reports).loss i key = loss := by
  change _ ↔ key ∈ List.toFinset _ ∧ (((taking reports).get i).lossAt? key).getD 1 = loss
  rw [List.mem_toFinset, mem_keys_iff_lossAt?]
  constructor
  · intro found
    rw [found, Option.getD_some]
    exact ⟨⟨loss, rfl⟩, rfl⟩
  · rintro ⟨⟨other, found⟩, rfl⟩
    rw [found, Option.getD_some]

theorem mem_reportedLogs {x : ℝ} :
    x ∈ reportedLogs reports key ↔
      ∃ i ∈ (roundPanel reports).reporters key, log10 ((roundPanel reports).loss i key) = x := by
  simp only [Panel.mem_reporters]
  constructor
  · rintro ⟨report, inside, loss, found, rfl⟩
    obtain ⟨i, rfl⟩ := List.get_of_mem inside
    obtain ⟨own, same⟩ := lossAt?_get_iff.mp found
    exact ⟨i, own, congrArg log10 same⟩
  · rintro ⟨i, own, same⟩
    exact ⟨_, List.get_mem _ i, _, lossAt?_get_iff.mpr ⟨own, rfl⟩, same⟩

theorem exists_spans (reported : (reportedLogs reports key).Nonempty) :
    ∃ low high, Spans reports key low high := by
  have finite : (reportedLogs reports key).Finite := by
    refine (((roundPanel reports).reporters key).finite_toSet.image fun i =>
      log10 ((roundPanel reports).loss i key)).subset fun x inside => ?_
    obtain ⟨i, reporting, same⟩ := mem_reportedLogs.mp inside
    exact ⟨i, reporting, same⟩
  obtain ⟨low, least⟩ := Set.exists_min_image _ id finite reported
  obtain ⟨high, greatest⟩ := Set.exists_max_image _ id finite reported
  exact ⟨low, high, least, greatest⟩

theorem level_mem_of_spans {low high : ℝ} {c : Fin (taking reports).length → ℝ}
    (stake_nonneg : ∀ i, 0 ≤ (roundPanel reports).stake i) (nonneg : ∀ i, 0 ≤ c i)
    (spans : Spans reports key low high) :
    low ≤ (roundPanel reports).level c key ∧ (roundPanel reports).level c key ≤ high := by
  obtain ⟨i, reporting, -⟩ := mem_reportedLogs.mp spans.least.1
  exact ⟨Panel.le_level stake_nonneg nonneg ⟨i, reporting⟩ fun j other _ =>
      spans.least.2 (mem_reportedLogs.mpr ⟨j, other, rfl⟩),
    Panel.level_le stake_nonneg nonneg ⟨i, reporting⟩ fun j other _ =>
      spans.greatest.2 (mem_reportedLogs.mpr ⟨j, other, rfl⟩)⟩

theorem level_of_common {c : Fin (taking reports).length → ℝ} {loss : ℝ}
    (stake_nonneg : ∀ i, 0 ≤ (roundPanel reports).stake i) (nonneg : ∀ i, 0 ≤ c i)
    (reported : ∃ report ∈ taking reports, report.lossAt? key = some loss)
    (all : ∀ report ∈ taking reports, ∀ other, report.lossAt? key = some other → other = loss) :
    (roundPanel reports).level c key = log10 loss := by
  have only : ∀ x ∈ reportedLogs reports key, x = log10 loss := by
    rintro _ ⟨report, inside, other, found, rfl⟩
    rw [all report inside other found]
  obtain ⟨report, inside, found⟩ := reported
  obtain ⟨low, high, spans⟩ := exists_spans ⟨_, report, inside, loss, found, rfl⟩
  obtain ⟨above, below⟩ := level_mem_of_spans stake_nonneg nonneg spans
  rw [only _ spans.least.1] at above
  rw [only _ spans.greatest.1] at below
  exact le_antisymm below above

theorem exists_deviation_le_span {c : Fin (taking reports).length → ℝ}
    (stake_nonneg : ∀ i, 0 ≤ (roundPanel reports).stake i) (nonneg : ∀ i, 0 ≤ c i)
    {i : Fin (taking reports).length} (measured : ((roundPanel reports).keys i).Nonempty) :
    ∃ key ∈ (roundPanel reports).keys i, ∃ low high, Spans reports key low high ∧
      (roundPanel reports).deviation c i ≤ high - low := by
  obtain ⟨key, own, bound⟩ := (roundPanel reports).exists_deviation_le (c := c) measured
  have reported : log10 ((roundPanel reports).loss i key) ∈ reportedLogs reports key :=
    mem_reportedLogs.mpr ⟨i, (Panel.mem_reporters _).mpr own, rfl⟩
  obtain ⟨low, high, spans⟩ := exists_spans ⟨_, reported⟩
  obtain ⟨above, below⟩ := level_mem_of_spans stake_nonneg nonneg spans
  exact ⟨key, own, low, high, spans, bound.trans (spans.abs_sub_le reported above below)⟩

theorem nonempty_reportedLogs_iff :
    (reportedLogs reports key).Nonempty ↔
      ∃ report ∈ taking reports, key ∈ report.coverage.losses.keys := by
  simp only [mem_keys_iff_lossAt?]
  constructor
  · rintro ⟨_, report, inside, loss, found, -⟩
    exact ⟨report, inside, loss, found⟩
  · rintro ⟨report, inside, loss, found⟩
    exact ⟨_, report, inside, loss, found, rfl⟩

theorem get?_levels_iff (computed : AsPanelDefines config reports consensus) {level : ℝ} :
    consensus.levels.get? key = some level ↔
      (reportedLogs reports key).Nonempty ∧
        (roundPanel reports).level (finals config reports) key = level := by
  obtain ⟨keys, mem_keys, entries⟩ := computed.levels
  rw [nonempty_reportedLogs_iff, ← mem_keys]
  constructor
  · intro found
    have inside := Table.mem_entries_of_get? found
    rw [entries] at inside
    obtain ⟨_, member, same⟩ := List.mem_map.mp inside
    cases same
    exact ⟨member, rfl⟩
  · rintro ⟨member, rfl⟩
    apply Table.get?_of_mem_entries
    rw [entries]
    exact List.mem_map_of_mem member

theorem exists_losses (consensus : Consensus ℝ) :
    ∃ losses, consensus.losses = .ok losses ∧ ∀ key loss, (key, loss) ∈ losses ↔
      ∃ level, consensus.levels.get? key = some level ∧ powerOfTen? level = some loss := by
  obtain ⟨losses, computed⟩ : ∃ losses, consensus.losses = .ok losses :=
    Fault.exists_mapM_eq_ok fun _ _ => ⟨_, rfl⟩
  refine ⟨losses, computed, fun key loss => ⟨levelOf_of_mem_losses computed, ?_⟩⟩
  rintro ⟨level, found, power⟩
  obtain ⟨⟨_, _⟩, inside, rfl, power'⟩ :=
    exists_right_of_forall₂ (losses_eq_ok computed) (Table.mem_entries_of_get? found)
  cases power.symm.trans power'
  exact inside

theorem powerOfTen?_eq_some_iff {x y : ℝ} (positive : 0 < y) :
    powerOfTen? x = some y ↔ log10 y = x := by
  constructor
  · exact log10_powerOfTen
  · rintro rfl
    exact congrArg some (Real.rpow_logb (by norm_num) (by norm_num) positive)

theorem loss_pos_of_takesPart {report : Report ℝ} (takes : report.takesPart) {loss : ℝ}
    (found : report.lossAt? key = some loss) : 0 < loss :=
  ((takesPart_iff _).mp takes).2 _ (mem_entries_of_lossAt? found)

/-- What a consensus says about the reports that it was made of. -/
structure MeasuresDisagreement (reports : List (Report ℝ)) (consensus : Consensus ℝ)
    (losses : List (LossKey × ℝ)) : Prop where
  keys : ∀ key, key ∈ consensus.levels.keys ↔ (reportedLogs reports key).Nonempty
  level_mem : ∀ key level, consensus.levels.get? key = some level →
    ∃ low high, Spans reports key low high ∧ low ≤ level ∧ level ≤ high
  common : ∀ key loss, (∃ report ∈ taking reports, report.lossAt? key = some loss) →
    (∀ report ∈ taking reports, ∀ other, report.lossAt? key = some other → other = loss) →
    (key, loss) ∈ losses
  score_nonpos : ∀ reputer score, consensus.scores.get? reputer = some score → score ≤ 0
  score : ∀ report ∈ taking reports, ∃ score, consensus.scores.get? report.reputer = some score ∧
    (score = 0 ↔ ∀ key loss, report.lossAt? key = some loss → (key, loss) ∈ losses) ∧
    ∃ key ∈ report.coverage.losses.keys, ∃ low high,
      Spans reports key low high ∧ |score| ≤ high - low

/-- In every round levels lie among what was reported, and scores measure how far apart that is. -/
theorem scores_measure_disagreement (distinct : (reports.map Report.reputer).Nodup)
    (measured : ∀ report ∈ reports, report.coverage.hasEligible → report.coverage.losses.keys ≠ [])
    (returned : aggregate config reports = .ok consensus) :
    ∃ losses, consensus.losses = .ok losses ∧ MeasuresDisagreement reports consensus losses := by
  have computed := aggregate_computes_panel distinct returned
  have stake_nonneg : ∀ i, 0 ≤ (roundPanel reports).stake i :=
    (sound_of_aggregate returned).stake_nonneg
  have nonneg : ∀ i, 0 ≤ finals config reports i :=
    (roundPanel reports).coefficientsAfter_nonneg config _ _
  obtain ⟨losses, read, mem_losses⟩ := exists_losses consensus
  -- A participant's loss is the one of the consensus where its logarithm is the level.
  have met_iff : ∀ report ∈ taking reports, ∀ {key loss}, report.lossAt? key = some loss →
      ((key, loss) ∈ losses ↔ log10 loss = (roundPanel reports).level (finals config reports) key) := by
    intro report inside key loss found
    have positive := loss_pos_of_takesPart (List.mem_filter.mp inside).2 found
    have reported : (reportedLogs reports key).Nonempty := ⟨_, report, inside, loss, found, rfl⟩
    simp only [mem_losses, get?_levels_iff computed, and_iff_right reported,
      powerOfTen?_eq_some_iff positive, exists_eq_left']
  refine ⟨losses, read, fun key => ?_, fun key level found => ?_, fun key loss reported all => ?_,
    fun reputer score found => ?_, fun report inside => ?_⟩
  · rw [keys_levels_of_aggregate returned, nonempty_reportedLogs_iff]
    exact mem_lossKeys
  · obtain ⟨reported, rfl⟩ := (get?_levels_iff computed).mp found
    obtain ⟨low, high, spans⟩ := exists_spans reported
    exact ⟨low, high, spans, level_mem_of_spans stake_nonneg nonneg spans⟩
  · have common := level_of_common stake_nonneg nonneg reported all
    obtain ⟨report, inside, found⟩ := reported
    exact (met_iff report inside found).mpr common.symm
  · have inside := Table.mem_entries_of_get? found
    rw [computed.scores] at inside
    obtain ⟨i, same⟩ := List.mem_ofFn.mp inside
    cases same
    exact neg_nonpos.mpr (Real.sqrt_nonneg _)
  · obtain ⟨i, rfl⟩ := List.get_of_mem inside
    refine ⟨_, congrArg Standing.score (standing_of_aggregate distinct returned i), ?_, ?_⟩
    · rw [neg_eq_zero, Panel.deviation_eq_zero_iff]
      constructor
      · intro met key loss found
        obtain ⟨own, rfl⟩ := lossAt?_get_iff.mp found
        exact (met_iff _ inside found).mpr (met key own)
      · intro met key own
        have found := lossAt?_get_iff.mpr ⟨own, rfl⟩
        exact (met_iff _ inside found).mp (met key _ found)
    · have takes := List.mem_filter.mp inside
      obtain ⟨first, reported⟩ := List.exists_mem_of_ne_nil _
        (measured _ takes.1 ((takesPart_iff _).mp takes.2).1)
      obtain ⟨key, own, low, high, spans, bound⟩ :=
        exists_deviation_le_span stake_nonneg nonneg ⟨first, List.mem_toFinset.mpr reported⟩
      refine ⟨key, List.mem_toFinset.mp own, low, high, spans, ?_⟩
      rw [abs_neg]
      exact (abs_of_nonneg (Real.sqrt_nonneg _)).trans_le bound

/-- Two participants that are a power of ten apart, with unequal stakes. -/
theorem scores_measure_disagreement_of_two :
    ([Report.lone 1 1 1 1, Report.lone 2 3 10 1].map Report.reputer).Nodup ∧
    (∀ report ∈ [Report.lone 1 1 1 1, Report.lone 2 3 10 1],
      report.coverage.hasEligible → report.coverage.losses.keys ≠ []) ∧
    ∃ consensus losses,
      aggregate (.onePass 1 zero_le_one le_rfl) [Report.lone 1 1 1 1, Report.lone 2 3 10 1] =
        .ok consensus ∧
      consensus.losses = .ok losses ∧
      MeasuresDisagreement [Report.lone 1 1 1 1, Report.lone 2 3 10 1] consensus losses := by
  have distinct : ([Report.lone 1 1 1 1, Report.lone 2 3 10 1].map Report.reputer).Nodup :=
    nodup_reputers_lone (by decide) _ _ _ _ _ _
  have measured : ∀ report ∈ [Report.lone 1 1 1 1, Report.lone 2 3 10 1],
      report.coverage.hasEligible → report.coverage.losses.keys ≠ [] := by
    intro report inside _
    rcases List.mem_pair.mp inside with rfl | rfl <;> exact List.cons_ne_nil _ _
  have returned := aggregate_pair (.onePass 1 zero_le_one le_rfl)
    (takesPart_lone 1 1 1 one_pos) (takesPart_lone 2 3 1 (by norm_num : (0 : ℝ) < 10))
    one_pos zero_le_three
  obtain ⟨losses, read, measures⟩ := scores_measure_disagreement distinct measured returned
  exact ⟨distinct, measured, _, losses, returned, read, measures⟩

end RoundScoring.Consensus
