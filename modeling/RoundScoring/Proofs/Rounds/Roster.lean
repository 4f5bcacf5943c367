import RoundScoring.Binary64.Elementary
import RoundScoring.Proofs.Rounds.Returning

/-!
A round that is scored from its own consensus scores the whole roster or nobody. Each bundle is
filtered against the same roster, so under a category the levels name all of its workers or none;
their texts are read back as the workers that they were; and a worker is scored when the categories
that its score needs have levels.
-/

namespace RoundScoring

variable {R : Type} [Scalar R]

theorem readBack_of_scoreRound {engine after : Engine R} {topic block : Int}
    {submissions : List (Round.Submission R)} {round : RoundScores R}
    (returned : engine.scoreRound topic block submissions none = (.ok round, after)) :
    ∃ roster, engine.keeper.ledger.rosters.get? topic = some roster ∧
      Consensus.Keyed engine.policy.required roster
        (Round.Counts engine.policy.required roster submissions round.consensus) round.consensus ∧
      ∃ values inferences forecasts,
        Consensus.ReadBack engine.policy.required roster
          (Round.Counts engine.policy.required roster submissions round.consensus) round.consensus
          round.network values ∧
        Round.inferenceScores engine.policy topic block false round.network = .ok inferences ∧
        Round.forecastScores engine.policy topic block false round.network = .ok forecasts ∧
        round.inferences = inferences.getD [] ∧ round.forecasts = forecasts.getD [] := by
  obtain ⟨opened, rated, inferred, same, scored, -, -⟩ := scored_of_scoreRound returned
  obtain ⟨reputers, roster, reports, computed⟩ :=
    Round.computed_of_run_scoreReputers scored.reputers
  obtain ⟨values, back⟩ := Consensus.readBack_of_toBundle computed.keyed scored.network
  obtain ⟨inferences, infers, inferencesAre⟩ := Round.computed_of_run_scoreInferers scored.inferences
  obtain ⟨forecasts, forecast, forecastsAre⟩ :=
    Round.computed_of_run_scoreForecasters scored.forecasts
  rw [same] at computed
  exact ⟨roster, computed.known, computed.keyed, values, inferences, forecasts, back, infers, forecast,
    inferencesAre, forecastsAre⟩

/-- Rosters are in order by construction, so scores in the order of the roster are. -/
theorem own_consensus_scores_roster_or_nobody :
    (∀ (R : Type) [Scalar R] (engine after : Engine R) (topic block : Int)
        (submissions : List (Round.Submission R)) (round : RoundScores R),
      engine.scoreRound topic block submissions none = (.ok round, after) →
      ∃ roster, engine.keeper.ledger.rosters.get? topic = some roster ∧
        let counts := Round.Counts engine.policy.required roster submissions round.consensus
        Round.AllOrNone roster
          (roster.toList ≠ [] ∧ counts (.perWorker .oneOutInferer) ∧ counts (.whole .combined))
          round.inferences ∧
        Round.AllOrNone roster
          (counts (.whole .combined) ∧ counts (.whole .naive) ∧
            counts (.perWorker .oneOutForecaster) ∧ counts (.perWorker .oneInForecaster))
          round.forecasts) ∧
    ∀ (engine after : Engine ℝ) (topic block : Int) (submissions : List (Round.Submission ℝ))
        (round : RoundScores ℝ),
      engine.scoreRound topic block submissions none = (.ok round, after) →
      ∃ roster, engine.keeper.ledger.rosters.get? topic = some roster ∧
        (round.inferences ≠ [] →
          List.Forall₂ (fun worker score => ∃ heldOut full,
              round.consensus.levels.get? (.perWorker .oneOutInferer worker) = some heldOut ∧
              round.consensus.levels.get? (.whole .combined) = some full ∧
              score = ⟨topic, block, worker.text, heldOut - full⟩)
            roster.toList round.inferences) := by
  constructor
  · intro R _ engine after topic block submissions round returned
    obtain ⟨roster, known, keyed, values, inferences, forecasts, back, infers, forecast, both⟩ :=
      readBack_of_scoreRound returned
    refine ⟨roster, known, ?_, ?_⟩
    · rw [both.1]
      exact Round.allOrNone_inferences keyed back infers
    · rw [both.2]
      exact Round.allOrNone_forecasts keyed back forecast
  · intro engine after topic block submissions round returned
    obtain ⟨roster, known, keyed, values, inferences, forecasts, back, infers, forecast, both⟩ :=
      readBack_of_scoreRound returned
    refine ⟨roster, known, fun somebody => ?_⟩
    rw [both.1] at somebody ⊢
    refine (Round.leveled_inferences back infers somebody).imp fun worker score found => ?_
    obtain ⟨_, _, ⟨heldOut, held, power⟩, ⟨full, whole, power'⟩, rfl⟩ := found
    refine ⟨heldOut, full, held, whole, ?_⟩
    rw [Scalar.log10_powerOfTen power, Scalar.log10_powerOfTen power']

def Consensus.Config.usual : Consensus.Config Float where
  maxPasses := 3
  damping := 0.25
  tolerance := 0.01
  minCoefficient := 0
  maxCoefficient := 1
  convergenceThreshold := 1e-6
  damping_nonneg := by decide
  damping_le_one := by decide
  tolerance_not_nonpos := by decide
  min_nonneg := by decide
  min_lt_max := by decide +kernel

/-- Both workers are scored as inferers here, whatever the order in which their losses came, and
neither as a forecaster; both are in exact arithmetic as well. -/
theorem own_consensus_scores_two_workers :
    (∃ round after roster,
      (Engine.sample .usual).scoreRound 1 1 [.sample 3 2] none = (.ok round, after) ∧
      (Engine.sample .usual).keeper.ledger.rosters.get? 1 = some roster ∧
      round.inferences.map Score.account = [(Address.sample 1).text, (Address.sample 2).text] ∧
      let counts := Round.Counts (some Address.usualHrp) roster [.sample 3 2] round.consensus
      Round.AllOrNone roster
        (roster.toList ≠ [] ∧ counts (.perWorker .oneOutInferer) ∧ counts (.whole .combined))
        round.inferences ∧
      Round.AllOrNone roster
        (counts (.whole .combined) ∧ counts (.whole .naive) ∧
          counts (.perWorker .oneOutForecaster) ∧ counts (.perWorker .oneInForecaster))
        round.forecasts) ∧
    ∃ (config : Consensus.Config ℝ) (round : RoundScores ℝ) (after : Engine ℝ),
      (Engine.sample config).scoreRound 1 1 [.sample 3 2] none = (.ok round, after) ∧
      round.inferences ≠ [] ∧
      List.Forall₂ (fun worker score => ∃ heldOut full,
          round.consensus.levels.get? (.perWorker .oneOutInferer worker) = some heldOut ∧
          round.consensus.levels.get? (.whole .combined) = some full ∧
          score = ⟨1, 1, worker.text, heldOut - full⟩)
        [.sample 1, .sample 2] round.inferences := by
  have listed : OrderedSet.sample.toList = [.sample 1, .sample 2] := by decide
  constructor
  · have accounts : ((Engine.sample .usual).scoreRound 1 1 [.sample 3 2] none).1.toOption.map
        (fun round => round.inferences.map Score.account) =
          some [(Address.sample 1).text, (Address.sample 2).text] := by
      decide +kernel
    generalize ran : (Engine.sample .usual).scoreRound 1 1 [.sample 3 2] none = outcome at accounts
    obtain ⟨fault | round, after⟩ := outcome
    · cases accounts
    · obtain ⟨roster, known, both⟩ := own_consensus_scores_roster_or_nobody.1 Float _ _ _ _ _ _ ran
      exact ⟨round, after, roster, rfl, known, Option.some.inj accounts, both⟩
  · obtain ⟨round, after, returned, whole, workers⟩ := exists_scoreRound_sample
      (.onePass 1 zero_le_one le_rfl) (show (0 : ℝ) < 3 by norm_num) (show (0 : ℝ) < 2 by norm_num)
    obtain ⟨_, known, inferences, -⟩ :=
      own_consensus_scores_roster_or_nobody.1 ℝ _ _ _ _ _ _ returned
    cases known
    have somebody : round.inferences ≠ [] := by
      refine inferences.nonempty.mpr ⟨?_, workers, whole⟩
      rw [listed]
      exact List.cons_ne_nil _ _
    obtain ⟨_, known, exact⟩ := own_consensus_scores_roster_or_nobody.2 _ _ _ _ _ _ returned
    cases known
    have scores := exact somebody
    rw [listed] at scores
    exact ⟨_, round, after, returned, somebody, scores⟩

end RoundScoring
