import RoundScoring.Proofs.Keeping
import RoundScoring.Round.Engine

/-!
What a round that returns has done to the ledger, table by table. Each part of a round has its own
effect, and the effect of a round is theirs in a row: coefficients and reputers' scores first, then
the scores of inferers, then those of forecasters. Stakes and rosters are never written.
-/

namespace RoundScoring

variable {R : Type}

def ScoreKey.of (topic block : Int) (score : Score R) : ScoreKey := ⟨topic, block, score.account⟩

/-- The old entries, followed by these scores under keys that were free and differ from each other. -/
structure Gained (topic block : Int) (scores : List (Score R))
    (before after : Table ScoreKey (Score R)) : Prop where
  entries : after.entries = before.entries ++ scores.map fun s => (ScoreKey.of topic block s, s)
  placed : ∀ s ∈ scores, s.topic = topic ∧ s.block = block
  free : ∀ s ∈ scores, ScoreKey.of topic block s ∉ before.keys
  distinct : (scores.map (ScoreKey.of topic block)).Nodup

/-- That the keys were free and differ follows, because no table has a key twice. -/
theorem Gained.of_entries {topic block : Int} {scores : List (Score R)}
    {before after : Table ScoreKey (Score R)}
    (entries : after.entries = before.entries ++ scores.map fun s => (ScoreKey.of topic block s, s))
    (placed : ∀ s ∈ scores, s.topic = topic ∧ s.block = block) :
    Gained topic block scores before after := by
  have keys : (before.keys ++ scores.map (ScoreKey.of topic block)).Nodup := by
    have whole := after.distinct
    rw [entries, List.map_append, List.map_map] at whole
    exact whole
  obtain ⟨-, distinct, apart⟩ := List.nodup_append.mp keys
  refine ⟨entries, placed, ?_, distinct⟩
  intro s inside taken
  exact apart _ taken _ (List.mem_map_of_mem inside) rfl

theorem Gained.refl (topic block : Int) (table : Table ScoreKey (Score R)) :
    Gained topic block [] table table :=
  .of_entries (by simp) (by simp)

variable [Scalar R]

/-- The coefficients that were given to reputers of a topic, and all others as they were. A reputer
that had none before stands at the end, in the order in which they were given. -/
structure Relistened (topic : Int) (given : Table Address R)
    (before after : Table (Int × Address) (Coefficient R)) : Prop where
  values : ∀ t r, (after.get? (t, r)).map Coefficient.value =
    if t = topic ∧ r ∈ given.keys then given.get? r else (before.get? (t, r)).map Coefficient.value
  keys : after.keys =
    before.keys ++ (given.keys.map fun r => (topic, r)).filter (· ∉ before.keys)

theorem Coefficient.value_injective : Function.Injective (Coefficient.value (R := R)) := by
  rintro ⟨left, _⟩ ⟨right, _⟩ same
  cases same
  rfl

theorem Relistened.get?_of_not_given {topic : Int} {given : Table Address R}
    {before after : Table (Int × Address) (Coefficient R)}
    (relistened : Relistened topic given before after) {t : Int} {r : Address}
    (other : ¬(t = topic ∧ r ∈ given.keys)) : after.get? (t, r) = before.get? (t, r) := by
  have value := relistened.values t r
  rw [if_neg other] at value
  exact Option.map_injective Coefficient.value_injective value

/-- Some scores were added to one table, and nothing else was written. -/
structure Recorded (kind : ScoreKind) (topic block : Int) (scores : List (Score R))
    (before after : Ledger R) : Prop where
  gained : Gained topic block scores (before.scores kind) (after.scores kind)
  rest : after = before.withScores kind (after.scores kind)

theorem Ledger.withScores_scores (ledger : Ledger R) (kind : ScoreKind) :
    ledger.withScores kind (ledger.scores kind) = ledger := by
  cases kind <;> rfl

theorem Ledger.withScores_withScores (ledger : Ledger R) (kind : ScoreKind)
    (first second : Table ScoreKey (Score R)) :
    (ledger.withScores kind first).withScores kind second = ledger.withScores kind second := by
  cases kind <;> rfl

theorem Recorded.refl (kind : ScoreKind) (topic block : Int) (ledger : Ledger R) :
    Recorded kind topic block [] ledger ledger :=
  ⟨.refl topic block _, (ledger.withScores_scores kind).symm⟩

structure ReputersEffect (topic block : Int) (scored : Round.ReputerScores R)
    (before after : Ledger R) : Prop where
  participants : scored.consensus.coefficients.keys = scored.consensus.participants
  coefficients : Relistened topic scored.consensus.coefficients before.coefficients after.coefficients
  scores : Gained topic block scored.scores before.reputerScores after.reputerScores
  rest : after = { before with
    coefficients := after.coefficients, reputerScores := after.reputerScores }

structure RoundEffect (round : RoundScores R) (before after : Ledger R) : Prop where
  participants : round.consensus.coefficients.keys = round.consensus.participants
  coefficients :
    Relistened round.topic round.consensus.coefficients before.coefficients after.coefficients
  reputers : Gained round.topic round.block round.reputers before.reputerScores after.reputerScores
  inferences :
    Gained round.topic round.block round.inferences before.inferenceScores after.inferenceScores
  forecasts :
    Gained round.topic round.block round.forecasts before.forecastScores after.forecastScores
  stakes : after.stakes = before.stakes
  rosters : after.rosters = before.rosters

theorem RoundEffect.of_parts {round : RoundScores R} {before rated inferred after : Ledger R}
    (reputers : ReputersEffect round.topic round.block ⟨round.reputers, round.consensus⟩ before rated)
    (inferences : Recorded .inference round.topic round.block round.inferences rated inferred)
    (forecasts : Recorded .forecast round.topic round.block round.forecasts inferred after) :
    RoundEffect round before after := by
  obtain ⟨participants, coefficients, scores, ratedRest⟩ := reputers
  obtain ⟨inferenceGained, inferredRest⟩ := inferences
  obtain ⟨forecastGained, afterRest⟩ := forecasts
  rw [inferredRest] at forecastGained afterRest
  rw [ratedRest] at inferenceGained forecastGained afterRest
  rw [afterRest]
  exact {
    participants
    coefficients
    reputers := scores
    inferences := inferenceGained
    forecasts := forecastGained
    stakes := rfl
    rosters := rfl }

end RoundScoring
