import RoundScoring.Proofs.Covering.Retelling
import RoundScoring.Proofs.Rounds.Given
import RoundScoring.Proofs.Rounds.Numbers

/-!
Rounds that are asked for in other words. How accounts are spelled, in what order a reputer lists its
losses and what it lists of workers off the roster does not matter: what is read of them is the same,
so the same calls of the keeper follow. Main statement: such a round returns the same scores and
leaves the same engine (`retold_round_is_scored_alike`).
-/

namespace RoundScoring

variable {R : Type} {required : Option String} {roster : OrderedSet Address}

/-- A bundle sent in another way by the same reputer. -/
structure Round.Submission.Retold (required : Option String) (roster : OrderedSet Address)
    (submission other : Round.Submission R) : Prop where
  reputer : Address.Respells required submission.reputer other.reputer
  bundle : submission.bundle.Retold required roster other.bundle

structure Bundle.Respelt (required : Option String) (network other : Bundle R) : Prop where
  topic : other.topic = network.topic
  whole : ∀ category, other.whole category = network.whole category
  entries : ∀ category, List.Forall₂
    (fun entry again => Address.Respells required entry.worker again.worker ∧ again.loss = entry.loss)
    (network.entries category) (other.entries category)

theorem Bundle.Respelt.valuesFor {network other : Bundle R} (respelt : network.Respelt required other)
    {category : WorkerCategory} {values : Table Address R}
    (read : network.valuesFor required category = .ok values) :
    other.valuesFor required category = .ok values := by
  rw [valuesFor_eq_ok_iff] at read ⊢
  exact forall₂_readAs_of_respells read (respelt.entries category)

namespace Round

theorem exists_readAs_of_retold {submissions others : List (Submission R)}
    {reputers : List (Address × Bundle R)}
    (retold : List.Forall₂ (Submission.Retold required roster) submissions others)
    (read : List.Forall₂ (Submission.ReadAs required) submissions reputers) :
    ∃ again, List.Forall₂ (Submission.ReadAs required) others again ∧
      List.Forall₂ (fun pair other => other.1 = pair.1 ∧ pair.2.Retold required roster other.2)
        reputers again := by
  induction retold generalizing reputers with
  | nil =>
    cases read
    exact ⟨[], .nil, .nil⟩
  | @cons _ other _ _ told _ ih =>
    obtain ⟨⟨reputer, _⟩, later, ⟨parsed, rfl⟩, rest, rfl⟩ := List.forall₂_cons_left_iff.mp read
    obtain ⟨again, each, alike⟩ := ih rest
    exact ⟨(reputer, other.bundle) :: again, .cons ⟨told.reputer.parse_eq.trans parsed, rfl⟩ each,
      .cons ⟨rfl, told.bundle⟩ alike⟩

theorem readReputers_of_retold {submissions others : List (Submission R)}
    {reputers : List (Address × Bundle R)}
    (retold : List.Forall₂ (Submission.Retold required roster) submissions others)
    (read : readReputers required submissions = .ok reputers) :
    ∃ again, readReputers required others = .ok again ∧
      List.Forall₂ (fun pair other => other.1 = pair.1 ∧ pair.2.Retold required roster other.2)
        reputers again := by
  obtain ⟨sent, distinct⟩ := readReputers_eq_ok_iff.mp read
  obtain ⟨again, each, alike⟩ := exists_readAs_of_retold retold sent
  have same : again.map Prod.fst = reputers.map Prod.fst :=
    map_eq_map_of_forall₂ (alike.imp fun _ _ head => head.1)
  exact ⟨again, readReputers_eq_ok_iff.mpr ⟨each, same ▸ distinct⟩, alike⟩

end Round

namespace Keeper

variable [Scalar R] {α β : Type}

theorem run_mapM_of_forall₂_imp {step : α → Keeping R β} {as others : List α} {bs : List β}
    {keeper after : Keeper R}
    (each : List.Forall₂ (fun a other => ∀ (keeper after : Keeper R) b,
      keeper.run (step a) = (.ok b, after) → keeper.run (step other) = (.ok b, after)) as others)
    (ran : keeper.run (as.mapM step) = (.ok bs, after)) :
    keeper.run (others.mapM step) = (.ok bs, after) := by
  induction each generalizing keeper after bs with
  | nil => exact ran
  | cons head _ ih =>
    rw [List.mapM_cons] at ran ⊢
    obtain ⟨b, between, first, rest⟩ := run_bind_eq_ok_iff.mp ran
    obtain ⟨later, left, others, packed⟩ := run_bind_eq_ok_iff.mp rest
    exact run_bind_eq_ok_iff.mpr ⟨b, between, head _ _ _ first,
      run_bind_eq_ok_iff.mpr ⟨later, left, ih others, packed⟩⟩

end Keeper

namespace Round

open Keeper

variable [Scalar R] {policy : Policy R} {topic block : Int} {keeper after : Keeper R}

theorem run_readReport_of_retold {reputer : Address} {bundle other : Bundle R}
    {report : Consensus.Report R} (retold : bundle.Retold policy.required roster other)
    (ran : keeper.run (readReport policy topic roster reputer bundle) = (.ok report, after)) :
    keeper.run (readReport policy topic roster reputer other) = (.ok report, after) := by
  obtain ⟨stake, staked, readsStake, rest⟩ := run_bind_eq_ok_iff.mp ran
  obtain ⟨coefficient, listened, readsCoefficient, rest⟩ := run_bind_eq_ok_iff.mp rest
  obtain ⟨coverage, filtered, packed⟩ := run_lift_bind_eq_ok_iff.mp rest
  refine run_bind_eq_ok_iff.mpr ⟨stake, staked, readsStake, ?_⟩
  refine run_bind_eq_ok_iff.mpr ⟨coefficient, listened, readsCoefficient, ?_⟩
  exact run_lift_bind_eq_ok_iff.mpr
    ⟨coverage, Coverage.filter_of_retold filtered retold, packed⟩

theorem run_consensus_of_retold {submissions others : List (Submission R)} {result : Consensus R}
    (known : keeper.ledger.rosters.get? topic = some roster)
    (retold : List.Forall₂ (Submission.Retold policy.required roster) submissions others)
    (ran : keeper.run (consensus policy topic submissions) = (.ok result, after)) :
    keeper.run (consensus policy topic others) = (.ok result, after) := by
  obtain ⟨reputers, read, rest⟩ := run_lift_bind_eq_ok_iff.mp ran
  obtain ⟨found, asked, readsRoster, rest⟩ := run_bind_eq_ok_iff.mp rest
  cases known.symm.trans (run_readRoster_eq_ok readsRoster)
  obtain ⟨reports, left, readsReports, rest⟩ := run_bind_eq_ok_iff.mp rest
  obtain ⟨again, readAgain, each⟩ := readReputers_of_retold retold read
  refine run_lift_bind_eq_ok_iff.mpr ⟨again, readAgain, ?_⟩
  refine run_bind_eq_ok_iff.mpr ⟨roster, asked, readsRoster, ?_⟩
  refine run_bind_eq_ok_iff.mpr ⟨reports, left, ?_, rest⟩
  refine run_mapM_of_forall₂_imp (each.imp ?_) readsReports
  rintro ⟨reputer, bundle⟩ ⟨_, other⟩ ⟨rfl, told⟩ keeper after report
  exact run_readReport_of_retold told

theorem run_scoreReputers_of_retold {submissions others : List (Submission R)}
    {scored : ReputerScores R} (known : keeper.ledger.rosters.get? topic = some roster)
    (retold : List.Forall₂ (Submission.Retold policy.required roster) submissions others)
    (ran : keeper.run (scoreReputers policy topic block submissions) = (.ok scored, after)) :
    keeper.run (scoreReputers policy topic block others) = (.ok scored, after) := by
  obtain ⟨consensus, computed, computes, rest⟩ := run_bind_eq_ok_iff.mp ran
  exact run_bind_eq_ok_iff.mpr
    ⟨consensus, computed, run_consensus_of_retold known retold computes, rest⟩

section Network

variable {network other : Bundle R} (respelt : network.Respelt policy.required other)
include respelt

theorem networkLoss_of_respelt (strict : Bool) (category : WholeCategory) :
    networkLoss strict other category = networkLoss strict network category := by
  unfold networkLoss
  rw [respelt.whole]

theorem inferenceScores_of_respelt {strict : Bool} {scores : Option (List (Score R))}
    (scored : inferenceScores policy topic block strict network = .ok scores) :
    inferenceScores policy topic block strict other = .ok scores := by
  obtain ⟨oneOut, read, rest⟩ := Fault.bind_eq_ok_iff.mp scored
  refine Fault.bind_eq_ok_iff.mpr ⟨oneOut, respelt.valuesFor read, ?_⟩
  rwa [networkLoss_of_respelt respelt]

theorem forecastScores_of_respelt {strict : Bool} {scores : Option (List (Score R))}
    (scored : forecastScores policy topic block strict network = .ok scores) :
    forecastScores policy topic block strict other = .ok scores := by
  obtain ⟨oneOut, readOut, rest⟩ := Fault.bind_eq_ok_iff.mp scored
  obtain ⟨oneIn, readIn, rest⟩ := Fault.bind_eq_ok_iff.mp rest
  refine Fault.bind_eq_ok_iff.mpr ⟨oneOut, respelt.valuesFor readOut, ?_⟩
  refine Fault.bind_eq_ok_iff.mpr ⟨oneIn, respelt.valuesFor readIn, ?_⟩
  rwa [networkLoss_of_respelt respelt, networkLoss_of_respelt respelt]

theorem run_scoreInferers_of_respelt {strict : Bool} {scores : List (Score R)}
    (ran : keeper.run (scoreInferers policy topic block strict network) = (.ok scores, after)) :
    keeper.run (scoreInferers policy topic block strict other) = (.ok scores, after) := by
  obtain ⟨found, scored, rest⟩ := run_lift_bind_eq_ok_iff.mp ran
  exact run_lift_bind_eq_ok_iff.mpr ⟨found, inferenceScores_of_respelt respelt scored, rest⟩

theorem run_scoreForecasters_of_respelt {strict : Bool} {scores : List (Score R)}
    (ran : keeper.run (scoreForecasters policy topic block strict network) = (.ok scores, after)) :
    keeper.run (scoreForecasters policy topic block strict other) = (.ok scores, after) := by
  obtain ⟨found, scored, rest⟩ := run_lift_bind_eq_ok_iff.mp ran
  exact run_lift_bind_eq_ok_iff.mpr ⟨found, forecastScores_of_respelt respelt scored, rest⟩

end Network

end Round

section Engine

open Keeper

variable [Scalar R] {engine after : Engine R} {topic block : Int}
  {submissions others : List (Round.Submission R)} {given again : Option (Bundle R)}
  {round : RoundScores R}

theorem Scored.retold {policy : Policy R} {before rated inferred after : Keeper R}
    (scored : Scored policy topic block submissions given round before rated inferred after)
    (known : before.ledger.rosters.get? topic = some roster)
    (retold : List.Forall₂ (Round.Submission.Retold policy.required roster) submissions others)
    (respelt : Option.Rel (Bundle.Respelt policy.required) given again) :
    Scored policy topic block others again { round with network := again.getD round.network }
      before rated inferred after := by
  obtain ⟨place, reputers, network, inferences, forecasts⟩ := scored
  have reputed := Round.run_scoreReputers_of_retold known retold reputers
  cases respelt with
  | none => exact ⟨place, reputed, network, inferences, forecasts⟩
  | some respelt =>
    cases network
    exact ⟨place, reputed, rfl, Round.run_scoreInferers_of_respelt respelt inferences,
      Round.run_scoreForecasters_of_respelt respelt forecasts⟩

/-- Only the network that was given is returned as it is spelled now. -/
theorem retold_round_is_scored_alike
    (returned : engine.scoreRound topic block submissions given = (.ok round, after))
    (known : engine.keeper.ledger.rosters.get? topic = some roster)
    (retold : List.Forall₂ (Round.Submission.Retold engine.policy.required roster)
      submissions others)
    (respelt : Option.Rel (Bundle.Respelt engine.policy.required) given again) :
    engine.scoreRound topic block others again =
      (.ok { round with network := again.getD round.network }, after) := by
  obtain ⟨opened, kept, opens, done, rfl⟩ := scoreRound_eq_ok_iff.mp returned
  obtain ⟨rated, inferred, scored⟩ := scored_of_run done
  have same := (keepsLedger_attempt _).of_run opens
  have told := scored.retold (same ▸ known) retold respelt
  exact scoreRound_eq_ok_iff.mpr ⟨opened, kept, opens, told.run, rfl⟩

end Engine

/-- The sample's bundle with one text in capitals, the workers in the other order, and a loss that is
no number of a worker off the roster. -/
def Round.Submission.noisy : Round.Submission Float where
  reputer := "ALLO1PYJ40Y4L"
  bundle := { Bundle.sample 3 2 with
    oneOutInferer := [⟨"allo1qvruyjqy", 0 / 0⟩, ⟨(Address.sample 1).text, 3⟩,
      ⟨"ALLO1QGVKX507", 2⟩] }

theorem Round.Submission.retold_noisy :
    (Round.Submission.sample 3 2).Retold (some Address.usualHrp) .sample .noisy where
  reputer := .inr ⟨.sample 9, Address.parse_sample 9, by decide⟩
  bundle := {
    topic := rfl
    whole := fun category => by cases category <;> rfl
    entries := fun category => by
      cases category with
      | oneOutInferer =>
        have capitals : Address.Respells (some Address.usualHrp) (Address.sample 2).text
            "ALLO1QGVKX507" := .inr ⟨.sample 2, Address.parse_sample 2, by decide⟩
        have spelled : RoundScoring.Retold (some Address.usualHrp) .sample
            ([] ++ ⟨(Address.sample 2).text, (2 : Float)⟩ :: [⟨(Address.sample 1).text, 3⟩])
            ([] ++ ⟨"ALLO1QGVKX507", 2⟩ :: [⟨(Address.sample 1).text, 3⟩]) := .respelt capitals
        have swapped := spelled.trans (.permuted (List.Perm.swap _ _ []))
        have noise : Address.parse (some Address.usualHrp) "allo1qvruyjqy" = .ok (.sample 3) := by
          decide
        exact swapped.trans (.added noise (by decide) (by decide))
      | oneOutForecaster => exact .permuted (.refl _)
      | oneInForecaster => exact .permuted (.refl _) }

def Bundle.capitals : Bundle Float :=
  { Bundle.sample 3 2 with
    oneOutInferer := [⟨"ALLO1QGVKX507", 2⟩, ⟨"ALLO1QYAGQ77E", 3⟩] }

theorem Bundle.respelt_capitals :
    (Bundle.sample 3 2).Respelt (some Address.usualHrp) .capitals where
  topic := rfl
  whole category := by cases category <;> rfl
  entries category := by
    cases category with
    | oneOutInferer =>
      have first : Address.Respells (some Address.usualHrp) (Address.sample 2).text "ALLO1QGVKX507" :=
        .inr ⟨.sample 2, Address.parse_sample 2, by decide⟩
      have second : Address.Respells (some Address.usualHrp) (Address.sample 1).text "ALLO1QYAGQ77E" :=
        .inr ⟨.sample 1, Address.parse_sample 1, by decide⟩
      exact .cons ⟨first, rfl⟩ (.cons ⟨second, rfl⟩ .nil)
    | oneOutForecaster => exact .nil
    | oneInForecaster => exact .nil

/-- Reputer, workers and order are told in another way at once, and the network too. -/
theorem noisy_round_is_scored_alike :
    ∃ round after,
      (Engine.sample .usual).scoreRound 1 1 [.sample 3 2] (some (.sample 3 2)) = (.ok round, after) ∧
      round.total = 3 ∧
      (Engine.sample .usual).scoreRound 1 1 [.noisy] (some .capitals) =
        (.ok { round with network := .capitals }, after) := by
  have scored : ((Engine.sample .usual).scoreRound 1 1 [.sample 3 2]
      (some (.sample 3 2))).1.toOption.map RoundScores.total = some 3 := by
    decide +kernel
  have known : (Engine.sample (R := Float) .usual).keeper.ledger.rosters.get? 1 = some .sample := rfl
  generalize ran : (Engine.sample .usual).scoreRound 1 1 [.sample 3 2] (some (.sample 3 2)) =
    outcome at scored
  obtain ⟨fault | round, after⟩ := outcome
  · cases scored
  · exact ⟨round, after, rfl, Option.some.inj scored, retold_round_is_scored_alike ran known
      (.cons Round.Submission.retold_noisy .nil) (.some Bundle.respelt_capitals)⟩

end RoundScoring
