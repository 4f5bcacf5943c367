import RoundScoring.Proofs.Consensus.Exact

/-!
The aggregator computes its definition. Reports are read by position and results stored by reputer,
so the two come together only when no reputer has two reports; then every part of a consensus is what
the panel of its participants defines.
-/

namespace RoundScoring.Consensus

open Scalar

theorem taking_eq (reports : List (Report ℝ)) :
    taking reports = reports.filter fun report =>
      report.coverage.hasEligible ∧ ∀ entry ∈ report.coverage.losses.entries, 0 < entry.2 := by
  unfold taking
  refine List.filter_congr fun report _ => ?_
  rw [Bool.eq_iff_iff, takesPart_iff, decide_eq_true_iff]

/-- The participants in order, each with a number of its own. -/
noncomputable def byReputer (reports : List (Report ℝ)) (value : Fin (taking reports).length → ℝ) :
    List (Address × ℝ) :=
  List.ofFn fun i => (((taking reports).get i).reputer, value i)

theorem byReputer_of_nobody {reports : List (Report ℝ)} (nobody : taking reports = [])
    (value : Fin (taking reports).length → ℝ) : byReputer reports value = [] := by
  unfold byReputer
  rw [List.ofFn_eq_nil_iff, nobody]
  rfl

theorem map_fst_byReputer (reports : List (Report ℝ)) (value : Fin (taking reports).length → ℝ) :
    (byReputer reports value).map Prod.fst = (taking reports).map Report.reputer := by
  unfold byReputer
  rw [List.map_ofFn]
  exact List.ofFn_getElem_eq_map (taking reports) Report.reputer

theorem entries_ofList_byReputer {reports : List (Report ℝ)}
    (distinct : ((taking reports).map Report.reputer).Nodup)
    (value : Fin (taking reports).length → ℝ) :
    (Table.ofList (byReputer reports value)).entries = byReputer reports value := by
  apply Table.entries_ofList
  rw [map_fst_byReputer]
  exact distinct

theorem map_reportsAt_taking (reports : List (Report ℝ)) (c : Fin (taking reports).length → ℝ)
    (value : Report ℝ → ℝ) :
    ((reportsAt (taking reports).get c).map fun report => (report.reputer, value report)) =
      byReputer reports fun i => value (((taking reports).get i).withCoefficient (c i)) :=
  map_reportsAt _ _ fun report => (report.reputer, value report)

/-- A consensus holds what the panel of the participants defines, for the coefficients with which the
passes end. -/
structure AsPanelDefines (config : Config ℝ) (reports : List (Report ℝ)) (consensus : Consensus ℝ) :
    Prop where
  participants : taking reports = reports.filter fun report =>
    report.coverage.hasEligible ∧ ∀ entry ∈ report.coverage.losses.entries, 0 < entry.2
  excluded : consensus.excluded = left reports
  passes : consensus.passes =
    if taking reports = [] then 0 else (roundPanel reports).passes config (priors reports)
  coefficients : consensus.coefficients.entries =
    byReputer reports ((roundPanel reports).coefficients config (priors reports))
  deviations : consensus.deviations.entries = byReputer reports
    ((roundPanel reports).deviation ((roundPanel reports).coefficients config (priors reports)))
  scores : consensus.scores.entries = byReputer reports fun i =>
    -(roundPanel reports).deviation ((roundPanel reports).coefficients config (priors reports)) i
  levels : ∃ keys : OrderedSet LossKey,
    (∀ key, key ∈ keys ↔ ∃ report ∈ taking reports, key ∈ report.coverage.losses.keys) ∧
    consensus.levels.entries = keys.toList.map fun key => (key,
      (roundPanel reports).level ((roundPanel reports).coefficients config (priors reports)) key)

theorem aggregate_computes_panel {config : Config ℝ} {reports : List (Report ℝ)}
    {consensus : Consensus ℝ} (distinct : (reports.map Report.reputer).Nodup)
    (returned : aggregate config reports = .ok consensus) :
    AsPanelDefines config reports consensus := by
  rcases aggregate_eq_ok returned with ⟨nobody, rfl⟩ | ⟨somebody, stakes, rfl⟩
  · have empty := fun value => (byReputer_of_nobody nobody value).symm
    refine ⟨taking_eq reports, rfl, (if_pos nobody).symm, empty _, empty _, empty _,
      OrderedSet.empty, fun key => ?_, rfl⟩
    simp [nobody]
  · have sound := sound_of_checkStakes stakes
    have once : ((taking reports).map Report.reputer).Nodup :=
      distinct.sublist (List.filter_sublist.map Report.reputer)
    unfold ofPanel conclude
    simp only [map_reportsAt_taking]
    refine ⟨taking_eq reports, rfl, (if_neg somebody).symm, entries_ofList_byReputer once _, ?_, ?_,
      lossKeys (taking reports), fun _ => mem_lossKeys, ?_⟩
    · refine (entries_ofList_byReputer once _).trans (congrArg _ ?_)
      funext i
      exact deviation_eq sound i
    · refine (entries_ofList_byReputer once _).trans (congrArg _ ?_)
      funext i
      rw [← zero_sub]
      exact congrArg _ (deviation_eq sound i)
    · apply Table.entries_ofList
      rw [List.map_map]
      exact (List.map_id _).symm ▸ (lossKeys (taking reports)).nodup_toList

def Report.lone (payload : UInt8) (stake loss coefficient : ℝ) : Report ℝ where
  coverage := {
    reputer := ⟨Address.usualHrp, [payload]⟩
    eligible := .ofList [.whole .combined]
    excluded := .empty
    losses := .ofList [(.whole .combined, loss)] }
  stake := stake
  coefficient := coefficient

theorem takesPart_lone (payload : UInt8) (stake coefficient : ℝ) {loss : ℝ} (proper : 0 < loss) :
    (Report.lone payload stake loss coefficient).takesPart := by
  rw [takesPart_iff]
  refine ⟨rfl, fun entry inside => ?_⟩
  cases List.mem_singleton.mp inside
  exact proper

noncomputable def Config.onePass (damping : ℝ) (nonneg : 0 ≤ damping) (le_one : damping ≤ 1) :
    Config ℝ where
  maxPasses := 1
  damping := damping
  tolerance := 1
  minCoefficient := 0
  maxCoefficient := 1
  convergenceThreshold := 0
  damping_nonneg := nonneg
  damping_le_one := le_one
  tolerance_not_nonpos := by norm_num
  min_nonneg := le_rfl
  min_lt_max := zero_lt_one

theorem aggregate_of_two_computes_panel :
    ([Report.lone 1 1 1 1, Report.lone 2 3 10 (1 / 2)].map Report.reputer).Nodup ∧
    ∃ consensus,
      aggregate (.onePass 1 zero_le_one le_rfl)
        [Report.lone 1 1 1 1, Report.lone 2 3 10 (1 / 2)] = .ok consensus ∧
      AsPanelDefines (.onePass 1 zero_le_one le_rfl)
        [Report.lone 1 1 1 1, Report.lone 2 3 10 (1 / 2)] consensus := by
  have distinct : ([Report.lone 1 1 1 1, Report.lone 2 3 10 (1 / 2)].map Report.reputer).Nodup := by
    change ([⟨Address.usualHrp, [1]⟩, ⟨Address.usualHrp, [2]⟩] : List Address).Nodup
    decide
  have all : taking [Report.lone 1 1 1 1, Report.lone 2 3 10 (1 / 2)] =
      [Report.lone 1 1 1 1, Report.lone 2 3 10 (1 / 2)] := by
    unfold taking
    rw [List.filter_cons_of_pos (takesPart_lone _ _ _ one_pos),
      List.filter_cons_of_pos (takesPart_lone _ _ _ (by norm_num)), List.filter_nil]
  have somebody : taking [Report.lone 1 1 1 1, Report.lone 2 3 10 (1 / 2)] ≠ [] := by
    rw [all]
    exact List.cons_ne_nil _ _
  have stakes : checkStakes (taking [Report.lone 1 1 1 1, Report.lone 2 3 10 (1 / 2)]) = .ok () := by
    rw [all, checkStakes_eq_ok_iff]
    norm_num [Report.lone]
  have returned := aggregate_of_stakes (.onePass 1 zero_le_one le_rfl) somebody stakes
  exact ⟨distinct, _, returned, aggregate_computes_panel distinct returned⟩

theorem nodup_reputers_lone {payload payload' : UInt8} (apart : payload ≠ payload')
    (stake stake' loss loss' coefficient coefficient' : ℝ) :
    ([Report.lone payload stake loss coefficient,
      Report.lone payload' stake' loss' coefficient'].map Report.reputer).Nodup := by
  change ([⟨Address.usualHrp, [payload]⟩, ⟨Address.usualHrp, [payload']⟩] : List Address).Nodup
  rw [List.nodup_cons, List.mem_singleton]
  refine ⟨fun same => ?_, List.nodup_singleton _⟩
  cases same
  exact apart rfl

theorem taking_pair {first second : Report ℝ} (takes : first.takesPart) (takes' : second.takesPart) :
    taking [first, second] = [first, second] := by
  unfold taking
  rw [List.filter_cons_of_pos takes, List.filter_cons_of_pos takes', List.filter_nil]

theorem aggregate_pair (config : Config ℝ) {first second : Report ℝ} (takes : first.takesPart)
    (takes' : second.takesPart) (staked : 0 < first.stake) (nonneg : 0 ≤ second.stake) :
    aggregate config [first, second] = .ok (ofPanel config [first, second]) := by
  refine aggregate_of_stakes config ?_ ?_
  · rw [taking_pair takes takes']
    exact List.cons_ne_nil _ _
  · rw [taking_pair takes takes', checkStakes_eq_ok_iff]
    refine ⟨fun report inside => ?_, ?_⟩
    · rcases List.mem_pair.mp inside with rfl | rfl
      · exact staked.le
      · exact nonneg
    · rw [List.map_cons, List.map_cons, List.map_nil, List.sum_pair]
      exact add_pos_of_pos_of_nonneg staked nonneg

end RoundScoring.Consensus
