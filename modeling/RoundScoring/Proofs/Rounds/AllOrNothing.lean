import Mathlib.Logic.Function.Basic
import RoundScoring.Binary64.Elementary
import RoundScoring.Proofs.Rounds.Parts

/-!
Rounds happen in full or not at all. A round that fails, for whatever reason and at whatever call of
the keeper, leaves the six tables as they were and is listed with its reason. A round that returns
has written exactly what it returns.
-/

namespace RoundScoring

open Keeper

variable {R : Type} [Scalar R]

/-- The parts of a round that returned, each on the keeper that the one before left. -/
structure Scored (policy : Policy R) (topic block : Int) (submissions : List (Round.Submission R))
    (given : Option (Bundle R)) (round : RoundScores R)
    (before rated inferred after : Keeper R) : Prop where
  place : round.topic = topic ∧ round.block = block
  reputers : before.run (Round.scoreReputers policy topic block submissions) =
    (.ok ⟨round.reputers, round.consensus⟩, rated)
  network : given.elim (round.consensus.toBundle topic) .ok = .ok round.network
  inferences : rated.run (Round.scoreInferers policy topic block given.isSome round.network) =
    (.ok round.inferences, inferred)
  forecasts : inferred.run (Round.scoreForecasters policy topic block given.isSome round.network) =
    (.ok round.forecasts, after)

theorem scored_of_run {policy : Policy R} {topic block : Int}
    {submissions : List (Round.Submission R)} {given : Option (Bundle R)} {round : RoundScores R}
    {keeper after : Keeper R}
    (ran : keeper.run (Round.score policy topic block submissions given) = (.ok round, after)) :
    ∃ rated inferred,
      Scored policy topic block submissions given round keeper rated inferred after := by
  obtain ⟨⟨reputers, consensus⟩, rated, rates, rest⟩ := run_bind_eq_ok_iff.mp ran
  have chosen : ∃ network, given.elim (consensus.toBundle topic) .ok = .ok network ∧
      rated.run (do
        let inferences ← Round.scoreInferers policy topic block given.isSome network
        let forecasts ← Round.scoreForecasters policy topic block given.isSome network
        return { topic, block, reputers, inferences, forecasts, consensus, network }) =
      (.ok round, after) := by
    cases given with
    | some network => exact ⟨network, rfl, rest⟩
    | none =>
      obtain ⟨network, chooses, rest⟩ := run_lift_bind_eq_ok_iff.mp rest
      exact ⟨network, chooses, rest⟩
  obtain ⟨network, found, rest⟩ := chosen
  obtain ⟨inferences, inferred, infers, rest⟩ := run_bind_eq_ok_iff.mp rest
  obtain ⟨forecasts, _, scores, packed⟩ := run_bind_eq_ok_iff.mp rest
  cases packed
  exact ⟨rated, inferred, ⟨rfl, rfl⟩, rates, found, infers, scores⟩

theorem Scored.effect {policy : Policy R} {topic block : Int}
    {submissions : List (Round.Submission R)} {given : Option (Bundle R)} {round : RoundScores R}
    {before rated inferred after : Keeper R}
    (scored : Scored policy topic block submissions given round before rated inferred after) :
    RoundEffect round before.ledger after.ledger := by
  obtain ⟨⟨rfl, rfl⟩, reputers, _, inferences, forecasts⟩ := scored
  exact .of_parts (reputersEffect_of_run reputers) (recorded_of_run_scoreInferers inferences)
    (recorded_of_run_scoreForecasters forecasts)

theorem scored_of_scoreRound {engine after : Engine R} {topic block : Int}
    {submissions : List (Round.Submission R)} {given : Option (Bundle R)} {round : RoundScores R}
    (returned : engine.scoreRound topic block submissions given = (.ok round, after)) :
    ∃ opened rated inferred, opened.ledger = engine.keeper.ledger ∧
      Scored engine.policy topic block submissions given round opened rated inferred after.keeper ∧
      after.policy = engine.policy ∧ after.unscored = engine.unscored.erase (topic, block) := by
  unfold Engine.scoreRound at returned
  dsimp only at returned
  split at returned
  next scores keeper ran =>
    cases returned
    obtain ⟨opened, same, done⟩ := run_transaction_eq_ok ran
    obtain ⟨rated, inferred, scored⟩ := scored_of_run done
    exact ⟨opened, rated, inferred, same, scored, rfl, rfl⟩
  next => cases returned

theorem unchanged_of_scoreRound {engine after : Engine R} {topic block : Int}
    {submissions : List (Round.Submission R)} {given : Option (Bundle R)} {fault : Fault R}
    (failed : engine.scoreRound topic block submissions given = (.error fault, after)) :
    after.keeper.ledger = engine.keeper.ledger ∧ after.policy = engine.policy ∧
      after.unscored = engine.unscored.put (topic, block) fault := by
  unfold Engine.scoreRound at failed
  dsimp only at failed
  split at failed
  next => cases failed
  next ran =>
    cases failed
    exact ⟨allOrNothing_transaction _ _ _ _ ran, rfl, rfl⟩

theorem policy_of_scoreRound (engine : Engine R) (topic block : Int)
    (submissions : List (Round.Submission R)) (given : Option (Bundle R)) :
    (engine.scoreRound topic block submissions given).2.policy = engine.policy := by
  unfold Engine.scoreRound
  dsimp only
  split <;> rfl

def Engine.reasons (refusal : Float → String) (engine : Engine Float) (round : Int × Int) :
    Option String :=
  (engine.unscored.get? round).map (Fault.reason refusal)

theorem Engine.reasons_of_put {engine after : Engine Float} {round : Int × Int}
    {fault : Fault Float} (listed : after.unscored = engine.unscored.put round fault)
    (refusal : Float → String) :
    after.reasons refusal =
      Function.update (engine.reasons refusal) round (some (fault.reason refusal)) := by
  funext other
  unfold reasons
  rw [listed, Table.get?_put, Function.update_apply]
  split <;> rfl

theorem Engine.reasons_of_erase {engine after : Engine Float} {round : Int × Int}
    (struck : after.unscored = engine.unscored.erase round) (refusal : Float → String) :
    after.reasons refusal = Function.update (engine.reasons refusal) round none := by
  funext other
  unfold reasons
  rw [struck, Table.get?_erase, Function.update_apply]
  split <;> rfl

/-- The keeper may be out of order in any way (`engine.keeper.outage`), so a failure may strike at
any call; and a part may be run on its own, outside of any round. -/
theorem round_in_full_or_not_at_all (refusal : Float → String) (engine : Engine Float)
    (topic block : Int) (submissions : List (Round.Submission Float))
    (given : Option (Bundle Float)) :
    (match engine.scoreRound topic block submissions given with
      | (.error fault, after) =>
          after.keeper.ledger = engine.keeper.ledger ∧
            after.reasons refusal = Function.update (engine.reasons refusal) (topic, block)
              (some (fault.kind.name ++ ": " ++ fault.message refusal))
      | (.ok round, after) =>
          (round.topic = topic ∧ round.block = block) ∧
            RoundEffect round engine.keeper.ledger after.keeper.ledger ∧
            after.reasons refusal =
              Function.update (engine.reasons refusal) (topic, block) none) ∧
    (match engine.keeper.run (Round.scoreReputers engine.policy topic block submissions) with
      | (.error _, after) => after.ledger = engine.keeper.ledger
      | (.ok scored, after) =>
          ReputersEffect topic block scored engine.keeper.ledger after.ledger) ∧
    ∀ (strict : Bool) (network : Bundle Float),
      (match engine.keeper.run (Round.scoreInferers engine.policy topic block strict network) with
        | (.error _, after) => after.ledger = engine.keeper.ledger
        | (.ok scores, after) =>
            Recorded .inference topic block scores engine.keeper.ledger after.ledger) ∧
      (match engine.keeper.run (Round.scoreForecasters engine.policy topic block strict network) with
        | (.error _, after) => after.ledger = engine.keeper.ledger
        | (.ok scores, after) =>
            Recorded .forecast topic block scores engine.keeper.ledger after.ledger) := by
  refine ⟨?_, ?_, fun strict network => ⟨?_, ?_⟩⟩
  · split
    next fault after failed =>
      obtain ⟨ledger, -, listed⟩ := unchanged_of_scoreRound failed
      exact ⟨ledger, Engine.reasons_of_put listed refusal⟩
    next round after returned =>
      obtain ⟨opened, rated, inferred, same, scored, -, struck⟩ := scored_of_scoreRound returned
      refine ⟨scored.place, ?_, Engine.reasons_of_erase struck refusal⟩
      rw [← same]
      exact scored.effect
  · split
    next failed => exact allOrNothing_scoreReputers _ _ _ _ _ _ _ failed
    next returned => exact reputersEffect_of_run returned
  · split
    next failed => exact allOrNothing_scoreInferers _ _ _ _ _ _ _ _ failed
    next returned => exact recorded_of_run_scoreInferers returned
  · split
    next failed => exact allOrNothing_scoreForecasters _ _ _ _ _ _ _ _ failed
    next returned => exact recorded_of_run_scoreForecasters returned

end RoundScoring
