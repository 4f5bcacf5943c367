import RoundScoring.Proofs.Binary64.Halvings
import RoundScoring.Proofs.Rounds.Given

/-!
How many forecasters a network may have. Where all losses are proper and every forecaster has one
without it, nothing but the share among them can keep forecasters from being scored; and in binary64
numbers there is a share for up to 1024 of them. One more, and nobody is scored.
-/

namespace RoundScoring

open Keeper

namespace Round

section Pairing

variable {R : Type} [Scalar R]

/-- A network whose forecasters can all be scored, once there is a share for so many of them. -/
structure Pairs (policy : Policy R) (network : Bundle R) (combined naive : R)
    (oneOut oneIn : Table Address R) : Prop where
  readOut : network.valuesFor policy.required .oneOutForecaster = .ok oneOut
  readIn : network.valuesFor policy.required .oneInForecaster = .ok oneIn
  whole : network.whole .combined = some combined
  plain : network.whole .naive = some naive
  combined_proper : Scalar.IsLoss combined
  naive_proper : Scalar.IsLoss naive
  oneOut_proper : ∀ pair ∈ oneOut.entries, Scalar.IsLoss pair.2
  oneIn_proper : ∀ pair ∈ oneIn.entries, Scalar.IsLoss pair.2
  known : ∀ worker ∈ oneIn.keys, worker ∈ oneOut.keys

namespace Pairs

variable {policy : Policy R} {network : Bundle R} {combined naive factor : R}
  {oneOut oneIn : Table Address R} {keeper : Keeper R} {fault : Fault R}
  (pairs : Pairs policy network combined naive oneOut oneIn)

include pairs

theorem forecastScores_eq (somebody : oneIn.entries ≠ []) (topic block : Int) (strict : Bool) :
    ∃ paired, oneOutScores combined oneOut = .ok paired ∧
      forecastScores policy topic block strict network = (do
        let factor ← Loss.uniqueness (oneOut.size : R)
        let scores ← oneIn.entries.mapM fun (worker, loss) =>
          forecasterScore topic block strict paired naive factor worker loss
        return some (scores.filterMap id)) := by
  obtain ⟨paired, scored⟩ := exists_oneOutScores pairs.combined_proper pairs.oneOut_proper
  refine ⟨paired, scored, ?_⟩
  rw [forecastScores_of_whole pairs.readOut pairs.readIn
    (mt (Bundle.entries_eq_nil_iff pairs.readIn).mpr somebody) pairs.whole pairs.plain]
  exact Fault.bind_of_ok scored

theorem forecastScores_of_nobody (nobody : oneIn.entries = []) (topic block : Int) (strict : Bool) :
    forecastScores policy topic block strict network = .ok none :=
  (Fault.bind_of_ok pairs.readOut).trans
    ((Fault.bind_of_ok pairs.readIn).trans (if_pos (List.isEmpty_iff.mpr nobody)))

theorem exists_forecastScores (somebody : oneIn.entries ≠ [])
    (left : Loss.uniqueness (oneOut.size : R) = .ok factor) (share : 0 ≤ factor ∧ factor ≤ 1)
    (topic block : Int) (strict : Bool) :
    ∃ scores, forecastScores policy topic block strict network = .ok (some scores) ∧
      List.Forall₂ (ForecasterScore topic block combined naive factor oneOut) oneIn.entries
        scores := by
  obtain ⟨paired, scored, computed⟩ := pairs.forecastScores_eq somebody topic block strict
  have each : ∀ pair ∈ oneIn.entries, ∃ score,
      forecasterScore topic block strict paired naive factor pair.1 pair.2 = .ok score := by
    intro pair inside
    refine exists_forecasterScore pairs.naive_proper (pairs.oneIn_proper pair inside) share
      (fun _ => ?_) topic block
    exact (mem_keys_oneOutScores scored _).mpr (pairs.known _ (List.mem_map_of_mem inside))
  obtain ⟨tried, found⟩ := Fault.exists_mapM_eq_ok each
  have made : forecastScores policy topic block strict network =
      .ok (some (tried.filterMap id)) :=
    computed.trans ((Fault.bind_of_ok left).trans (Fault.bind_of_ok found))
  refine ⟨_, made, ?_⟩
  rcases forecastScores_eq_ok pairs.readOut pairs.readIn made with
    ⟨-, wrong⟩ | ⟨combined', naive', factor', written, whole, plain, left', same, scores⟩
  · cases wrong
  · cases pairs.whole.symm.trans whole
    cases pairs.plain.symm.trans plain
    cases left.symm.trans left'
    cases same
    have all : oneIn.entries.filter (·.1 ∈ oneOut.keys) = oneIn.entries := by
      rw [List.filter_eq_self]
      exact fun pair inside => decide_eq_true (pairs.known _ (List.mem_map_of_mem inside))
    rwa [all] at scores

theorem forecastScores_of_fault (somebody : oneIn.entries ≠ [])
    (none : Loss.uniqueness (oneOut.size : R) = .error fault) (topic block : Int) (strict : Bool) :
    forecastScores policy topic block strict network = .error fault := by
  obtain ⟨_, _, computed⟩ := pairs.forecastScores_eq somebody topic block strict
  exact computed.trans (Fault.bind_of_error none)

theorem exists_run_scoreForecasters (somebody : oneIn.entries ≠ [])
    (left : Loss.uniqueness (oneOut.size : R) = .ok factor) (share : 0 ≤ factor ∧ factor ≤ 1)
    {topic block : Int} (strict : Bool) (working : keeper.outage = none)
    (unscored : keeper.ledger.Unscored .forecast topic block) :
    ∃ scores after,
      keeper.run (scoreForecasters policy topic block strict network) = (.ok scores, after) ∧
      List.Forall₂ (ForecasterScore topic block combined naive factor oneOut) oneIn.entries
        scores := by
  obtain ⟨scores, made, each⟩ := pairs.exists_forecastScores somebody left share topic block strict
  have accounts : scores.map Score.account = oneIn.keys.map Address.text := by
    unfold Table.keys
    rw [List.map_map]
    refine map_eq_map_of_forall₂ (each.imp fun pair score scored => ?_)
    obtain ⟨_, -, rfl⟩ := scored
    rfl
  have distinct : (((some scores).getD []).map (ScoreKey.of topic block)).Nodup :=
    nodup_scoreKeys_of_valuesFor pairs.readIn accounts
  obtain ⟨after, records, -⟩ := exists_run_record working unscored distinct
  exact ⟨scores, after, (run_scoreForecasters_of_scored keeper made).trans records, each⟩

theorem run_scoreForecasters_of_nobody (nobody : oneIn.entries = []) (topic block : Int)
    (strict : Bool) :
    keeper.run (scoreForecasters policy topic block strict network) = (.ok [], keeper) :=
  run_scoreForecasters_of_scored keeper (pairs.forecastScores_of_nobody nobody topic block strict)

theorem run_scoreForecasters_of_fault (somebody : oneIn.entries ≠ [])
    (none : Loss.uniqueness (oneOut.size : R) = .error fault) (topic block : Int) (strict : Bool) :
    keeper.run (scoreForecasters policy topic block strict network) = (.error fault, keeper) := by
  unfold scoreForecasters
  rw [pairs.forecastScores_of_fault somebody none topic block strict, run_bind, run_lift]

end Pairs

end Pairing

structure ScoresBelowLimit (policy : Policy Float) (network : Bundle Float) (combined naive : Float)
    (oneOut oneIn : Table Address Float) (keeper : Keeper Float) (topic block : Int) (strict : Bool) :
    Prop where
  nobody : oneIn.entries = [] →
    keeper.run (scoreForecasters policy topic block strict network) = (.ok [], keeper)
  few : oneIn.entries ≠ [] → oneOut.size ≤ 1024 → ∃ factor scores after,
    Loss.uniqueness (oneOut.size : Float) = .ok factor ∧
    Binary64.value factor = 1 / 2 ^ (oneOut.size - 1) ∧
    keeper.run (scoreForecasters policy topic block strict network) = (.ok scores, after) ∧
    List.Forall₂ (ForecasterScore topic block combined naive factor oneOut) oneIn.entries scores
  many : oneIn.entries ≠ [] → 1025 ≤ oneOut.size → (oneOut.size : Float).isFinite = true →
    keeper.run (scoreForecasters policy topic block strict network) = (.error .overflow, keeper)

theorem forecasters_are_scored_up_to_1024 {policy : Policy Float} {network : Bundle Float}
    {combined naive : Float} {oneOut oneIn : Table Address Float} {keeper : Keeper Float}
    {topic block : Int} (pairs : Pairs policy network combined naive oneOut oneIn)
    (working : keeper.outage = none) (unscored : keeper.ledger.Unscored .forecast topic block)
    (strict : Bool) :
    Loss.SharesBelowLimit ∧
      ScoresBelowLimit policy network combined naive oneOut oneIn keeper topic block strict := by
  refine ⟨Loss.sharesBelowLimit, fun nobody => ?_, fun somebody few => ?_,
    fun somebody many finite => ?_⟩
  · exact pairs.run_scoreForecasters_of_nobody nobody topic block strict
  · obtain ⟨factor, left, share, halved⟩ := Loss.exists_uniqueness_natCast few
    obtain ⟨scores, after, ran, each⟩ :=
      pairs.exists_run_scoreForecasters somebody left share strict working unscored
    exact ⟨factor, scores, after, left, halved, ran, each⟩
  · exact pairs.run_scoreForecasters_of_fault somebody
      (Loss.uniqueness_natCast_of_large finite many) topic block strict

def samplePairs : Bundle Float where
  topic := 1
  combined := some 2
  naive := some 9
  oneOutInferer := []
  oneOutForecaster := [⟨(Address.sample 2).text, 4⟩, ⟨(Address.sample 1).text, 3⟩]
  oneInForecaster := [⟨(Address.sample 1).text, 5⟩, ⟨(Address.sample 2).text, 6⟩]

theorem two_forecasters_are_scored :
    ∃ (policy : Policy Float) (oneOut oneIn : Table Address Float),
      Pairs policy samplePairs 2 9 oneOut oneIn ∧
      ({} : Keeper Float).outage = none ∧
      ({} : Keeper Float).ledger.Unscored .forecast 1 1 ∧
      Loss.SharesBelowLimit ∧ ScoresBelowLimit policy samplePairs 2 9 oneOut oneIn {} 1 1 true := by
  have pairs : Pairs ⟨some Address.usualHrp, .usual⟩ samplePairs 2 9
      ⟨[(.sample 2, 4), (.sample 1, 3)], by decide⟩ ⟨[(.sample 1, 5), (.sample 2, 6)], by decide⟩ := {
    readOut := Bundle.valuesFor_eq_ok_iff.mpr
      (.cons ⟨Address.parse_sample 2, rfl⟩ (.cons ⟨Address.parse_sample 1, rfl⟩ .nil))
    readIn := Bundle.valuesFor_eq_ok_iff.mpr
      (.cons ⟨Address.parse_sample 1, rfl⟩ (.cons ⟨Address.parse_sample 2, rfl⟩ .nil))
    whole := rfl
    plain := rfl
    combined_proper := by decide
    naive_proper := by decide
    oneOut_proper := by decide
    oneIn_proper := by decide
    known := by decide }
  have unscored : ({} : Keeper Float).ledger.Unscored .forecast 1 1 := by
    intro key inside
    cases inside
  exact ⟨_, _, _, pairs, rfl, unscored, forecasters_are_scored_up_to_1024 pairs rfl unscored true⟩

end Round
end RoundScoring
