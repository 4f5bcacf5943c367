import RoundScoring.Proofs.Rounds.AllOrNothing

/-!
Rounds one after another on one engine. Whatever is asked of it and whatever fails, tables of scores
only grow at their end, and stakes and rosters stay (`grew_after`). A coefficient that has changed is
one of a reputer that was given a score in the same round, and a score is kept for good; so no second
round of the same topic and block moves the coefficient of that reputer
(`not_participant_of_participant`).
-/

namespace RoundScoring

open Keeper

variable {R : Type}

structure Round.Request (R : Type) where
  topic : Int
  block : Int
  submissions : List (Round.Submission R)
  given : Option (Bundle R)

def RoundScores.scores (round : RoundScores R) : ScoreKind → List (Score R)
  | .reputer => round.reputers
  | .inference => round.inferences
  | .forecast => round.forecasts

def Round.Request.key (request : Round.Request R) (reputer : Address) : ScoreKey :=
  ⟨request.topic, request.block, reputer.text⟩

variable [Scalar R]

def Engine.answer (engine : Engine R) (request : Round.Request R) :
    Except (Fault R) (RoundScores R) × Engine R :=
  engine.scoreRound request.topic request.block request.submissions request.given

/-- The engine after some requests in turn, whether it could answer them or not. -/
def Engine.after (engine : Engine R) (requests : List (Round.Request R)) : Engine R :=
  requests.foldl (fun engine request => (engine.answer request).2) engine

@[simp] theorem Engine.after_nil (engine : Engine R) : engine.after [] = engine := rfl

@[simp] theorem Engine.after_cons (engine : Engine R) (request : Round.Request R)
    (later : List (Round.Request R)) :
    engine.after (request :: later) = (engine.answer request).2.after later := rfl

theorem Engine.after_append (engine : Engine R) (earlier later : List (Round.Request R)) :
    engine.after (earlier ++ later) = (engine.after earlier).after later :=
  List.foldl_append

/-- What no round undoes. -/
structure Ledger.Grew (before after : Ledger R) : Prop where
  stakes : after.stakes = before.stakes
  rosters : after.rosters = before.rosters
  scores : ∀ kind, (before.scores kind).entries <+: (after.scores kind).entries

namespace Ledger.Grew

theorem refl (ledger : Ledger R) : ledger.Grew ledger := ⟨rfl, rfl, fun _ => List.prefix_rfl⟩

theorem trans {first second third : Ledger R} (left : first.Grew second) (right : second.Grew third) :
    first.Grew third :=
  ⟨right.stakes.trans left.stakes, right.rosters.trans left.rosters,
    fun kind => (left.scores kind).trans (right.scores kind)⟩

theorem mem_keys {before after : Ledger R} (grew : before.Grew after) {kind : ScoreKind}
    {key : ScoreKey} (kept : key ∈ (before.scores kind).keys) : key ∈ (after.scores kind).keys :=
  ((grew.scores kind).map Prod.fst).mem kept

end Ledger.Grew

theorem RoundEffect.gained {round : RoundScores R} {before after : Ledger R}
    (effect : RoundEffect round before after) (kind : ScoreKind) :
    Gained round.topic round.block (round.scores kind) (before.scores kind) (after.scores kind) := by
  cases kind with
  | reputer => exact effect.reputers
  | inference => exact effect.inferences
  | forecast => exact effect.forecasts

theorem RoundEffect.grew {round : RoundScores R} {before after : Ledger R}
    (effect : RoundEffect round before after) : before.Grew after :=
  ⟨effect.stakes, effect.rosters, fun kind => ⟨_, ((effect.gained kind).entries).symm⟩⟩

omit [Scalar R] in
theorem Gained.mem_keys {topic block : Int} {scores : List (Score R)}
    {before after : Table ScoreKey (Score R)} (gained : Gained topic block scores before after)
    {score : Score R} (inside : score ∈ scores) : ScoreKey.of topic block score ∈ after.keys := by
  unfold Table.keys
  rw [gained.entries, List.map_append, List.map_map]
  exact List.mem_append_right _ (List.mem_map_of_mem inside)

theorem Round.reputers_of_run_scoreReputers {policy : Policy R} {topic block : Int}
    {submissions : List (Round.Submission R)} {scored : Round.ReputerScores R}
    {keeper after : Keeper R}
    (ran : keeper.run (scoreReputers policy topic block submissions) = (.ok scored, after)) :
    scored.scores = reputerScores topic block scored.consensus := by
  obtain ⟨_, _, _, rest⟩ := run_bind_eq_ok_iff.mp ran
  obtain ⟨_, _, _, packed⟩ := run_bind_eq_ok_iff.mp rest
  cases packed
  rfl

structure Answered (request : Round.Request R) (round : RoundScores R) (before after : Ledger R) :
    Prop where
  place : round.topic = request.topic ∧ round.block = request.block
  effect : RoundEffect round before after
  reputers : round.reputers = Round.reputerScores request.topic request.block round.consensus

variable {engine : Engine R} {request : Round.Request R} {round : RoundScores R}

theorem answered_of_answer (returned : (engine.answer request).1 = .ok round) :
    Answered request round engine.keeper.ledger (engine.answer request).2.keeper.ledger := by
  obtain ⟨opened, rated, inferred, same, scored, -, -⟩ :=
    scored_of_scoreRound (Prod.ext returned rfl :
      engine.answer request = (.ok round, (engine.answer request).2))
  refine ⟨scored.place, ?_, Round.reputers_of_run_scoreReputers scored.reputers⟩
  rw [← same]
  exact scored.effect

theorem unchanged_of_answer {fault : Fault R} (failed : (engine.answer request).1 = .error fault) :
    (engine.answer request).2.keeper.ledger = engine.keeper.ledger :=
  (unchanged_of_scoreRound (Prod.ext failed rfl :
    engine.answer request = (.error fault, (engine.answer request).2))).1

theorem grew_of_answer (engine : Engine R) (request : Round.Request R) :
    engine.keeper.ledger.Grew (engine.answer request).2.keeper.ledger := by
  cases outcome : (engine.answer request).1 with
  | ok round => exact (answered_of_answer outcome).effect.grew
  | error fault =>
    rw [unchanged_of_answer outcome]
    exact .refl _

theorem grew_after (engine : Engine R) (requests : List (Round.Request R)) :
    engine.keeper.ledger.Grew (engine.after requests).keeper.ledger := by
  induction requests generalizing engine with
  | nil => exact .refl _
  | cons request later ih => exact (grew_of_answer engine request).trans (ih _)

namespace Answered

variable {before after : Ledger R}

theorem added (answered : Answered request round before after) {reputer : Address}
    (takes : reputer ∈ round.consensus.participants) :
    request.key reputer ∉ (before.scores .reputer).keys ∧
      request.key reputer ∈ (after.scores .reputer).keys := by
  obtain ⟨⟨topic, block⟩, effect, reputers⟩ := answered
  obtain ⟨⟨reputer, value⟩, inside, rfl⟩ := List.mem_map.mp takes
  have scored : ⟨request.topic, request.block, reputer.text, value⟩ ∈ round.scores .reputer := by
    unfold RoundScores.scores
    rw [reputers]
    exact List.mem_map_of_mem inside
  have free := (effect.gained .reputer).free _ scored
  have kept := (effect.gained .reputer).mem_keys scored
  rw [topic, block] at free kept
  exact ⟨free, kept⟩

theorem participant_of_changed (answered : Answered request round before after) {topic : Int}
    {reputer : Address}
    (changed : after.coefficients.get? (topic, reputer) ≠ before.coefficients.get? (topic, reputer)) :
    topic = request.topic ∧ reputer ∈ round.consensus.participants := by
  by_contra other
  rw [← answered.place.1, ← answered.effect.participants] at other
  exact changed (answered.effect.coefficients.get?_of_not_given other)

end Answered

theorem added_of_changed {topic : Int} {reputer : Address}
    (changed : (engine.answer request).2.keeper.ledger.coefficients.get? (topic, reputer) ≠
      engine.keeper.ledger.coefficients.get? (topic, reputer)) :
    topic = request.topic ∧ request.key reputer ∉ engine.keeper.ledger.reputerScores.keys ∧
      request.key reputer ∈ (engine.answer request).2.keeper.ledger.reputerScores.keys := by
  cases outcome : (engine.answer request).1 with
  | ok round =>
    have answered := answered_of_answer outcome
    obtain ⟨here, takes⟩ := answered.participant_of_changed changed
    exact ⟨here, answered.added takes⟩
  | error fault =>
    rw [unchanged_of_answer outcome] at changed
    exact absurd rfl changed

theorem not_participant_of_participant {between : List (Round.Request R)}
    {request' : Round.Request R} {round' : RoundScores R}
    (returned : (engine.answer request).1 = .ok round)
    (returned' : (((engine.answer request).2.after between).answer request').1 = .ok round')
    (same : request.topic = request'.topic ∧ request.block = request'.block) {reputer : Address}
    (takes : reputer ∈ round.consensus.participants) : reputer ∉ round'.consensus.participants := by
  intro again
  have kept := (grew_after _ between).mem_keys ((answered_of_answer returned).added takes).2
  have free := ((answered_of_answer returned').added again).1
  unfold Round.Request.key at kept free
  rw [same.1, same.2] at kept
  exact free kept

end RoundScoring
