import RoundScoring.Proofs.Rounds.Forecasting
import RoundScoring.Proofs.Rounds.Rearranging

/-!
Scores of workers go by account, in exact arithmetic. A forecaster is scored by the loss with it alone
and the loss without it, wherever in their collections these stand; how many losses without a forecaster
there are decides on the share, whether or not they are paired. So the order of those does not matter,
and the order of the others is that of the scores. A network that is taken strictly and scored is
scored alike when it is not. Main statement: `Round.workers_are_scored_by_account`.
-/

namespace RoundScoring

open Keeper

theorem Loss.uniqueness_natCast (forecasters : ℕ) :
    uniqueness (forecasters : ℝ) = .ok (share forecasters) := by
  unfold uniqueness share
  by_cases alone : forecasters ≤ 1
  · rw [if_pos (by exact_mod_cast alone), Nat.sub_eq_zero_of_le alone, pow_zero, div_one]
  · have many : 1 ≤ forecasters := by omega
    rw [if_neg (by exact_mod_cast alone)]
    change Except.ok (1 / (2 : ℝ) ^ ((forecasters : ℝ) - 1)) = _
    rw [← Real.rpow_natCast, Nat.cast_sub many, Nat.cast_one]

namespace Round

section Computed

variable {R : Type} [Scalar R] {policy : Policy R} {topic block : Int} {strict : Bool}
  {network : Bundle R} {oneOut oneIn : Table Address R} {scores : Option (List (Score R))}
  {keeper after : Keeper R} {returned : List (Score R)}

theorem Forecasted.mem_oneOut_of_strict
    (forecasted : Forecasted topic block true network oneOut oneIn scores) :
    ∀ worker ∈ oneIn.keys, worker ∈ oneOut.keys := by
  intro worker inside
  obtain ⟨pair, member, rfl⟩ := List.mem_map.mp inside
  cases forecasted with
  | nobody empty =>
    rw [empty] at member
    cases member
  | lacking lax => cases lax
  | scored _ _ _ pairs _ each =>
    obtain ⟨score, -, made⟩ := exists_right_of_forall₂ each member
    rw [← mem_keys_oneOutScores pairs]
    by_contra unknown
    rw [forecasterScore_of_unpaired unknown] at made
    cases made

theorem inferenceScores_of_strict
    (scored : inferenceScores policy topic block strict network = .ok scores) :
    inferenceScores policy topic block false network = .ok scores := by
  obtain ⟨oneOut, read, inferred⟩ := inferenceScores_eq_ok_iff.mp scored
  exact inferenceScores_eq_ok_iff.mpr ⟨oneOut, read, inferred.of_strict fun _ _ => rfl⟩

theorem forecastScores_of_strict
    (scored : forecastScores policy topic block strict network = .ok scores) :
    forecastScores policy topic block false network = .ok scores := by
  obtain ⟨oneOut, oneIn, readOut, readIn, forecasted⟩ := forecastScores_eq_ok_iff.mp scored
  exact forecastScores_eq_ok_iff.mpr
    ⟨oneOut, oneIn, readOut, readIn, forecasted.of_strict (fun _ _ => rfl) fun _ _ => .inl rfl⟩

theorem exists_run_scoreInferers_of_isLoss {full : R}
    (read : network.valuesFor policy.required .oneOutInferer = .ok oneOut)
    (somebody : oneOut.entries ≠ []) (whole : network.whole .combined = some full)
    (proper : Scalar.IsLoss full) (each : ∀ pair ∈ oneOut.entries, Scalar.IsLoss pair.2)
    (working : keeper.outage = none) (unscored : keeper.ledger.Unscored .inference topic block)
    (strict : Bool) :
    ∃ returned after,
      keeper.run (scoreInferers policy topic block strict network) = (.ok returned, after) ∧
      List.Forall₂ (InfererScore topic block full) oneOut.entries returned := by
  let written : List (Score R) := oneOut.entries.map fun pair =>
    ⟨topic, block, pair.1.text, Scalar.log10 pair.2 - Scalar.log10 full⟩
  have scored : inferenceScores policy topic block strict network = .ok (some written) := by
    apply inferenceScores_eq_ok_iff.mpr
    refine ⟨oneOut, read, .scored somebody whole ?_⟩
    rw [List.forall₂_map_right_iff, List.forall₂_same]
    exact fun pair inside => ⟨_, Loss.workerScore_of_isLoss proper (each pair inside), rfl⟩
  have own : written.map Score.account = oneOut.keys.map Address.text := by
    unfold written Table.keys
    rw [List.map_map, List.map_map]
    rfl
  have distinct : (((some written).getD []).map (ScoreKey.of topic block)).Nodup :=
    nodup_scoreKeys_of_valuesFor read own
  obtain ⟨after, records, -⟩ := exists_run_record working unscored distinct
  refine ⟨written, after, run_lift_bind_eq_ok_iff.mpr ⟨_, scored, records⟩, ?_⟩
  rw [List.forall₂_map_right_iff, List.forall₂_same]
  exact fun _ _ => rfl

end Computed

variable {policy : Policy ℝ} {topic block : Int} {strict : Bool} {network : Bundle ℝ}
  {oneOut oneIn : Table Address ℝ} {keeper after : Keeper ℝ} {scores : List (Score ℝ)}

/-- With a loss of the whole network, every inferer is scored by the loss without it. -/
def InferersScored (topic block : Int) (network : Bundle ℝ) (oneOut : Table Address ℝ)
    (scores : List (Score ℝ)) : Prop :=
  ∀ full, network.whole .combined = some full →
    List.Forall₂ (InfererScore topic block full) oneOut.entries scores

/-- With both losses of the whole network, every forecaster that comes alone and has a loss without it
is scored by the two. -/
def ForecastersScored (topic block : Int) (network : Bundle ℝ) (oneOut oneIn : Table Address ℝ)
    (scores : List (Score ℝ)) : Prop :=
  ∀ combined naive, network.whole .combined = some combined → network.whole .naive = some naive →
    List.Forall₂ (ForecasterScore topic block combined naive (Loss.share oneOut.size) oneOut)
      (oneIn.entries.filter (·.1 ∈ oneOut.keys)) scores

theorem inferersScored_of_run
    (read : network.valuesFor policy.required .oneOutInferer = .ok oneOut)
    (ran : keeper.run (scoreInferers policy topic block strict network) = (.ok scores, after)) :
    InferersScored topic block network oneOut scores := by
  intro full whole
  obtain ⟨computed, computes, rfl⟩ := computed_of_run_scoreInferers ran
  rcases inferenceScores_eq_ok read computes with ⟨nobody | missing, rfl⟩ | ⟨_, _, known, -, rfl, each⟩
  · rw [nobody]
    exact .nil
  · cases whole.symm.trans missing
  · cases whole.symm.trans known
    exact each

theorem forecastersScored_of_run
    (readOut : network.valuesFor policy.required .oneOutForecaster = .ok oneOut)
    (readIn : network.valuesFor policy.required .oneInForecaster = .ok oneIn)
    (ran : keeper.run (scoreForecasters policy topic block strict network) = (.ok scores, after)) :
    ForecastersScored topic block network oneOut oneIn scores := by
  intro combined naive whole plain
  obtain ⟨computed, computes, rfl⟩ := computed_of_run_scoreForecasters ran
  rcases forecastScores_eq_ok readOut readIn computes with
    ⟨nobody | missing | missing, rfl⟩ | ⟨_, _, factor, _, known, known', share, rfl, each⟩
  · rw [nobody]
    exact .nil
  · cases whole.symm.trans missing
  · cases plain.symm.trans missing
  · cases whole.symm.trans known
    cases plain.symm.trans known'
    rw [Loss.uniqueness_natCast] at share
    cases share
    exact each

/-- What the scores of inferers depend on: their accounts, and the order in which they are listed. -/
structure InferersByAccount (policy : Policy ℝ) (topic block : Int) (strict : Bool)
    (network : Bundle ℝ) (keeper after : Keeper ℝ) (scores : List (Score ℝ))
    (oneOut : Table Address ℝ) : Prop where
  read : network.valuesFor policy.required .oneOutInferer = .ok oneOut
  scored : InferersScored topic block network oneOut scores
  listed : ∀ other, network.Rearranged policy.required .oneOutInferer other →
    ∃ oneOut' scores' after', other.valuesFor policy.required .oneOutInferer = .ok oneOut' ∧
      oneOut.entries.Perm oneOut'.entries ∧
      keeper.run (scoreInferers policy topic block strict other) = (.ok scores', after') ∧
      scores.Perm scores' ∧ InferersScored topic block other oneOut' scores'
  leniently : keeper.run (scoreInferers policy topic block false network) = (.ok scores, after)

/-- What the scores of forecasters depend on: their accounts, how many losses without one of them there
are, and the order of those with one alone. -/
structure ForecastersByAccount (policy : Policy ℝ) (topic block : Int) (strict : Bool)
    (network : Bundle ℝ) (keeper after : Keeper ℝ) (scores : List (Score ℝ))
    (oneOut oneIn : Table Address ℝ) : Prop where
  readOut : network.valuesFor policy.required .oneOutForecaster = .ok oneOut
  readIn : network.valuesFor policy.required .oneInForecaster = .ok oneIn
  scored : ForecastersScored topic block network oneOut oneIn scores
  everyone : strict = true → ∀ worker ∈ oneIn.keys, worker ∈ oneOut.keys
  /-- The order of the losses without a forecaster is not seen, in the scores or in the keeper. -/
  lookedUp : ∀ other, network.Rearranged policy.required .oneOutForecaster other →
    keeper.run (scoreForecasters policy topic block strict other) = (.ok scores, after)
  /-- The scores come in the order of the losses with a forecaster alone. -/
  listed : ∀ other, network.Rearranged policy.required .oneInForecaster other →
    ∃ oneIn' scores' after', other.valuesFor policy.required .oneInForecaster = .ok oneIn' ∧
      oneIn.entries.Perm oneIn'.entries ∧
      keeper.run (scoreForecasters policy topic block strict other) = (.ok scores', after') ∧
      scores.Perm scores' ∧ ForecastersScored topic block other oneOut oneIn' scores'
  leniently : keeper.run (scoreForecasters policy topic block false network) = (.ok scores, after)

theorem inferersByAccount_of_run
    (ran : keeper.run (scoreInferers policy topic block strict network) = (.ok scores, after)) :
    ∃ oneOut, InferersByAccount policy topic block strict network keeper after scores oneOut := by
  obtain ⟨computed, computes, records⟩ := run_lift_bind_eq_ok_iff.mp ran
  obtain ⟨oneOut, read, -⟩ := inferenceScores_eq_ok_iff.mp computes
  refine ⟨oneOut, read, inferersScored_of_run read ran, fun other rearranged => ?_, ?_⟩
  · obtain ⟨oneOut', read', same⟩ := rearranged.exists_valuesFor read
    obtain ⟨computed', computes', related⟩ := exists_inferenceScores_of_rearranged rearranged computes
    obtain ⟨scores', after', records', permuted⟩ := exists_run_record_of_perm related records
    have ran' : keeper.run (scoreInferers policy topic block strict other) = (.ok scores', after') :=
      run_lift_bind_eq_ok_iff.mpr ⟨computed', computes', records'⟩
    exact ⟨oneOut', scores', after', read', same, ran', permuted, inferersScored_of_run read' ran'⟩
  · exact run_lift_bind_eq_ok_iff.mpr ⟨computed, inferenceScores_of_strict computes, records⟩

theorem forecastersByAccount_of_run
    (ran : keeper.run (scoreForecasters policy topic block strict network) = (.ok scores, after)) :
    ∃ oneOut oneIn,
      ForecastersByAccount policy topic block strict network keeper after scores oneOut oneIn := by
  obtain ⟨computed, computes, records⟩ := run_lift_bind_eq_ok_iff.mp ran
  obtain ⟨oneOut, oneIn, readOut, readIn, forecasted⟩ := forecastScores_eq_ok_iff.mp computes
  refine ⟨oneOut, oneIn, readOut, readIn, forecastersScored_of_run readOut readIn ran, ?_,
    fun other rearranged => ?_, fun other rearranged => ?_, ?_⟩
  · rintro rfl
    exact forecasted.mem_oneOut_of_strict
  · exact run_lift_bind_eq_ok_iff.mpr
      ⟨computed, forecastScores_of_oneOut_rearranged rearranged computes, records⟩
  · have readOut' := (rearranged.valuesFor_of_ne (by decide) _).trans readOut
    obtain ⟨oneIn', readIn', same⟩ := rearranged.exists_valuesFor readIn
    obtain ⟨computed', computes', related⟩ :=
      exists_forecastScores_of_oneIn_rearranged rearranged computes
    obtain ⟨scores', after', records', permuted⟩ := exists_run_record_of_perm related records
    have ran' : keeper.run (scoreForecasters policy topic block strict other) =
        (.ok scores', after') :=
      run_lift_bind_eq_ok_iff.mpr ⟨computed', computes', records'⟩
    exact ⟨oneIn', scores', after', readIn', same, ran', permuted,
      forecastersScored_of_run readOut' readIn' ran'⟩
  · exact run_lift_bind_eq_ok_iff.mpr ⟨computed, forecastScores_of_strict computes, records⟩

theorem workers_are_scored_by_account (policy : Policy ℝ) (topic block : Int) (strict : Bool)
    (network : Bundle ℝ) (keeper : Keeper ℝ) :
    (∀ scores after,
      keeper.run (scoreForecasters policy topic block strict network) = (.ok scores, after) →
      ∃ oneOut oneIn,
        ForecastersByAccount policy topic block strict network keeper after scores oneOut oneIn) ∧
    ∀ scores after,
      keeper.run (scoreInferers policy topic block strict network) = (.ok scores, after) →
      ∃ oneOut, InferersByAccount policy topic block strict network keeper after scores oneOut := by
  constructor
  · intro scores after ran
    exact forecastersByAccount_of_run ran
  · intro scores after ran
    exact inferersByAccount_of_run ran

def bothWays (first second : ℝ) : Bundle ℝ where
  topic := 1
  combined := some 1
  naive := some 1
  oneOutInferer := [⟨(Address.sample 2).text, second⟩, ⟨(Address.sample 1).text, first⟩]
  oneOutForecaster := [⟨(Address.sample 2).text, second⟩, ⟨(Address.sample 1).text, first⟩]
  oneInForecaster := [⟨(Address.sample 1).text, first⟩, ⟨(Address.sample 2).text, second⟩]

theorem two_workers_are_scored_by_account :
    ∃ (policy : Policy ℝ) (forecasts inferences : List (Score ℝ)) (after after' : Keeper ℝ),
      ({} : Keeper ℝ).run (scoreForecasters policy 1 1 true (bothWays 3 2)) = (.ok forecasts, after) ∧
      forecasts.length = 2 ∧
      (∃ oneOut oneIn,
        ForecastersByAccount policy 1 1 true (bothWays 3 2) {} after forecasts oneOut oneIn) ∧
      ({} : Keeper ℝ).run (scoreInferers policy 1 1 true (bothWays 3 2)) = (.ok inferences, after') ∧
      inferences.length = 2 ∧
      ∃ oneOut, InferersByAccount policy 1 1 true (bothWays 3 2) {} after' inferences oneOut := by
  let policy : Policy ℝ := ⟨some Address.usualHrp, .onePass 1 zero_le_one le_rfl⟩
  let oneOut : Table Address ℝ := ⟨[(.sample 2, 2), (.sample 1, 3)], by decide⟩
  let oneIn : Table Address ℝ := ⟨[(.sample 1, 3), (.sample 2, 2)], by decide⟩
  have unscored : ∀ kind, ({} : Keeper ℝ).ledger.Unscored kind 1 1 := by
    intro kind key inside
    cases kind <;> cases inside
  have readInferers : (bothWays 3 2).valuesFor policy.required .oneOutInferer = .ok oneOut :=
    Bundle.valuesFor_eq_ok_iff.mpr
      (.cons ⟨Address.parse_sample 2, rfl⟩ (.cons ⟨Address.parse_sample 1, rfl⟩ .nil))
  have pairs : Pairs policy (bothWays 3 2) 1 1 oneOut oneIn := {
    readOut := Bundle.valuesFor_eq_ok_iff.mpr
      (.cons ⟨Address.parse_sample 2, rfl⟩ (.cons ⟨Address.parse_sample 1, rfl⟩ .nil))
    readIn := Bundle.valuesFor_eq_ok_iff.mpr
      (.cons ⟨Address.parse_sample 1, rfl⟩ (.cons ⟨Address.parse_sample 2, rfl⟩ .nil))
    whole := rfl
    plain := rfl
    combined_proper := (Scalar.isLoss_iff_pos 1).mpr one_pos
    naive_proper := (Scalar.isLoss_iff_pos 1).mpr one_pos
    oneOut_proper := by simp [oneOut]
    oneIn_proper := by simp [oneIn]
    known := by decide }
  obtain ⟨factor, left, share⟩ := Loss.exists_uniqueness (oneOut.size : ℝ)
  obtain ⟨forecasts, after, forecast, scores⟩ :=
    pairs.exists_run_scoreForecasters (List.cons_ne_nil _ _) left share true rfl (unscored .forecast)
  obtain ⟨inferences, after', infer, scores'⟩ :=
    exists_run_scoreInferers_of_isLoss readInferers (List.cons_ne_nil _ _) rfl pairs.combined_proper
      pairs.oneOut_proper rfl (unscored .inference) true
  exact ⟨policy, forecasts, inferences, after, after', forecast, scores.length_eq.symm,
    (workers_are_scored_by_account policy 1 1 true (bothWays 3 2) {}).1 _ _ forecast, infer,
    scores'.length_eq.symm,
    (workers_are_scored_by_account policy 1 1 true (bothWays 3 2) {}).2 _ _ infer⟩

end Round
end RoundScoring
