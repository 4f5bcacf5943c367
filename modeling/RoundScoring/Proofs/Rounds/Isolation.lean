import RoundScoring.Proofs.Rounds.Given
import RoundScoring.Proofs.Topics

/-!
Topics do not see each other. All that a round reads and writes is its own topic's, so what an engine
answers to requests for one topic, and what it holds of that topic afterwards, is as if only these had
been made (`sameOn_after`). Two rounds of different topics may therefore change places.
-/

namespace RoundScoring

open Keeper

variable {R : Type} [Scalar R]

namespace Round

theorem confined_readReport (policy : Policy R) (topic : Int) (roster : OrderedSet Address)
    (reputer : Address) (bundle : Bundle R) :
    Confined topic (readReport policy topic roster reputer bundle) :=
  (confined_readStake _ _).bind fun _ => (confined_readCoefficient _ _).bind fun _ =>
    (confined_lift _).bind fun _ => confined_pure _

theorem confined_consensus (policy : Policy R) (topic : Int) (submissions : List (Submission R)) :
    Confined topic (consensus policy topic submissions) := by
  refine (confined_lift _).bind fun reputers => (confined_readRoster _).bind fun roster =>
    (confined_mapM (fun pair => ?_) _).bind fun _ => confined_lift _
  exact confined_readReport _ _ _ _ _

theorem confined_scoreReputers (policy : Policy R) (topic block : Int)
    (submissions : List (Submission R)) :
    Confined topic (scoreReputers policy topic block submissions) := by
  refine (confined_consensus _ _ _).bind fun consensus =>
    (Confined.transaction ?_).bind fun _ => confined_pure _
  exact (confined_forM (fun _ => confined_writeCoefficient _ _ _) _).bind fun _ =>
    confined_forM (fun _ => confined_insertScore _ _ _ _) _

theorem confined_record (kind : ScoreKind) (topic block : Int) (scores : Option (List (Score R))) :
    Confined topic (record kind topic block scores) := by
  cases scores with
  | none => exact confined_pure []
  | some scores =>
    refine (Confined.transaction ?_).bind fun _ => confined_pure _
    exact confined_forM (fun _ => confined_insertScore _ _ _ _) _

theorem confined_score (policy : Policy R) (topic block : Int) (submissions : List (Submission R))
    (given : Option (Bundle R)) : Confined topic (score policy topic block submissions given) := by
  have workers : ∀ (scored : ReputerScores R) (network : Bundle R), Confined topic (do
      let inferences ← scoreInferers policy topic block given.isSome network
      let forecasts ← scoreForecasters policy topic block given.isSome network
      return RoundScores.mk topic block scored.scores inferences forecasts scored.consensus
        network) := by
    intro scored network
    refine Confined.bind ?_ fun _ => Confined.bind ?_ fun _ => confined_pure _
    · exact (confined_lift _).bind fun _ => confined_record _ _ _ _
    · exact (confined_lift _).bind fun _ => confined_record _ _ _ _
  refine (confined_scoreReputers _ _ _ _).bind fun scored => ?_
  cases given with
  | some network => exact workers scored network
  | none => exact (confined_lift _).bind (workers scored)

end Round

/-- Two engines that hold the same of a topic, fail alike and score alike. -/
structure Engine.SameOn (topic : Int) (engine other : Engine R) : Prop where
  keeper : Keeper.SameOn topic engine.keeper other.keeper
  policy : engine.policy = other.policy
  unscored : ∀ block, engine.unscored.get? (topic, block) = other.unscored.get? (topic, block)

namespace Engine.SameOn

variable {topic : Int} {engine other third : Engine R}

theorem refl (topic : Int) (engine : Engine R) : SameOn topic engine engine :=
  ⟨⟨rfl, rfl⟩, rfl, fun _ => rfl⟩

theorem symm (same : SameOn topic engine other) : SameOn topic other engine :=
  ⟨⟨same.keeper.outage.symm, same.keeper.part.symm⟩, same.policy.symm,
    fun block => (same.unscored block).symm⟩

theorem trans (left : SameOn topic engine other) (right : SameOn topic other third) :
    SameOn topic engine third :=
  ⟨⟨left.keeper.outage.trans right.keeper.outage, left.keeper.part.trans right.keeper.part⟩,
    left.policy.trans right.policy,
    fun block => (left.unscored block).trans (right.unscored block)⟩

end Engine.SameOn

theorem sameOn_answer {engine other : Engine R} {request : Round.Request R}
    (same : Engine.SameOn request.topic engine other) :
    (engine.answer request).1 = (other.answer request).1 ∧
      Engine.SameOn request.topic (engine.answer request).2 (other.answer request).2 := by
  obtain ⟨topic, block, submissions, given⟩ := request
  obtain ⟨keeper, policy, unscored⟩ := same
  unfold Engine.answer Engine.scoreRound
  dsimp only at keeper unscored ⊢
  rw [policy]
  have confined := (Round.confined_score other.policy topic block submissions given).transaction
  obtain ⟨outcome, left⟩ := confined.reads engine.keeper other.keeper keeper
  generalize engine.keeper.run _ = ran at outcome left ⊢
  generalize other.keeper.run _ = ran' at outcome left ⊢
  obtain ⟨found, after⟩ := ran
  obtain ⟨found', after'⟩ := ran'
  cases outcome
  cases found with
  | ok scores =>
    refine ⟨rfl, left, rfl, fun listed => ?_⟩
    dsimp only
    rw [Table.get?_erase, Table.get?_erase, unscored]
  | error fault =>
    refine ⟨rfl, left, rfl, fun listed => ?_⟩
    dsimp only
    rw [Table.get?_put, Table.get?_put, unscored]

theorem ofTopic_answer (engine : Engine R) (request : Round.Request R) {topic : Int}
    (away : topic ≠ request.topic) :
    (engine.answer request).2.keeper.ledger.ofTopic topic = engine.keeper.ledger.ofTopic topic := by
  have confined := (Round.confined_score engine.policy request.topic request.block
    request.submissions request.given).transaction
  have kept := confined.writes engine.keeper topic away
  unfold Engine.answer Engine.scoreRound
  dsimp only
  split
  next ran =>
    rw [ran] at kept
    exact kept
  next ran =>
    rw [ran] at kept
    exact kept

theorem unscored_answer (engine : Engine R) (request : Round.Request R) {round : Int × Int}
    (away : round.1 ≠ request.topic) :
    (engine.answer request).2.unscored.get? round = engine.unscored.get? round := by
  have other : round ≠ (request.topic, request.block) := fun same => away (congrArg Prod.fst same)
  unfold Engine.answer Engine.scoreRound
  dsimp only
  split
  next => rw [Table.get?_erase, if_neg other]
  next => rw [Table.get?_put, if_neg other]

theorem working_answer {engine : Engine R} (working : engine.keeper.outage = none)
    (request : Round.Request R) : (engine.answer request).2.keeper.outage = none :=
  working_of_scoreRound working _ _ _ _

theorem sameOn_answer_of_ne {engine : Engine R} (working : engine.keeper.outage = none)
    {request : Round.Request R} {topic : Int} (away : topic ≠ request.topic) :
    Engine.SameOn topic (engine.answer request).2 engine where
  keeper := ⟨(working_answer working request).trans working.symm, ofTopic_answer engine request away⟩
  policy := policy_of_scoreRound _ _ _ _ _
  unscored := fun _ => unscored_answer engine request away

theorem sameOn_after {engine other : Engine R} {topic : Int}
    (same : Engine.SameOn topic engine other) (working : engine.keeper.outage = none)
    (requests : List (Round.Request R)) :
    Engine.SameOn topic (engine.after requests)
      (other.after (requests.filter (·.topic = topic))) := by
  -- A request for another topic leaves both engines what they are to this one.
  induction requests generalizing engine other with
  | nil => exact same
  | cons request later ih =>
    have still := working_answer working request
    by_cases own : request.topic = topic
    · rw [List.filter_cons_of_pos (by simpa using own), Engine.after_cons, Engine.after_cons]
      subst own
      exact ih (sameOn_answer same).2 still
    · rw [List.filter_cons_of_neg (by simpa using own), Engine.after_cons]
      exact ih ((sameOn_answer_of_ne working (Ne.symm own)).trans same) still

/-- The same entries in every table of the keeper, and the same rounds without scores. -/
structure Engine.SameMaps (engine other : Engine R) : Prop where
  ledger : engine.keeper.ledger.SameMaps other.keeper.ledger
  unscored : ∀ round, engine.unscored.get? round = other.unscored.get? round

theorem Engine.SameMaps.of_topics {engine other : Engine R}
    (each : ∀ topic, Engine.SameOn topic engine other) : engine.SameMaps other where
  ledger := .of_topics fun topic => (each topic).keeper.part
  unscored := fun (topic, block) => (each topic).unscored block

theorem sameMaps_of_swapped {engine : Engine R} (working : engine.keeper.outage = none)
    {first second : Round.Request R} (apart : first.topic ≠ second.topic) :
    (engine.after [first, second]).SameMaps (engine.after [second, first]) := by
  apply Engine.SameMaps.of_topics
  intro topic
  have one := sameOn_after (.refl topic engine) working [first, second]
  have two := sameOn_after (.refl topic engine) working [second, first]
  -- Of one topic there is at most one request, so their order is no matter there.
  have alike : [first, second].filter (·.topic = topic) = [second, first].filter (·.topic = topic) := by
    by_cases own : first.topic = topic
    · subst own
      simp [apart.symm]
    · simp [List.filter_cons, own]
  rw [alike] at one
  exact one.trans two.symm

theorem topics_are_isolated (engine : Engine R) :
    (∀ (request : Round.Request R) (topic : Int), topic ≠ request.topic →
      (engine.answer request).2.keeper.ledger.ofTopic topic =
        engine.keeper.ledger.ofTopic topic) ∧
    (engine.keeper.outage = none → ∀ first second : Round.Request R, first.topic ≠ second.topic →
      ((engine.answer second).2.answer first).1 = (engine.answer first).1 ∧
      ((engine.answer first).2.answer second).1 = (engine.answer second).1 ∧
      (engine.after [first, second]).SameMaps (engine.after [second, first])) := by
  refine ⟨fun request topic => ofTopic_answer engine request, ?_⟩
  intro working first second apart
  have firstAlone := sameOn_answer (sameOn_answer_of_ne working apart)
  have secondAlone := sameOn_answer (sameOn_answer_of_ne working apart.symm)
  exact ⟨firstAlone.1, secondAlone.1, sameMaps_of_swapped working apart⟩

/-- One topic is scored and the other is unknown, whichever is asked for first. -/
theorem isolated_scored_and_unscored :
    ∃ (engine : Engine Float) (first second : Round.Request Float),
      engine.keeper.outage = none ∧ first.topic ≠ second.topic ∧
      ((engine.answer first).1.toOption.map RoundScores.total = some 3 ∧
        (engine.answer second).1.toOption.isNone) ∧
      ((engine.answer second).2.answer first).1 = (engine.answer first).1 ∧
      ((engine.answer first).2.answer second).1 = (engine.answer second).1 ∧
      (engine.after [first, second]).SameMaps (engine.after [second, first]) ∧
      (engine.answer first).2.keeper.ledger.ofTopic second.topic =
        engine.keeper.ledger.ofTopic second.topic := by
  let first : Round.Request Float := ⟨1, 1, [.sample 3 2], none⟩
  let second : Round.Request Float := ⟨2, 1, [.sample 3 2], none⟩
  have apart : first.topic ≠ second.topic := by decide
  have scored : ((Engine.sample .usual).answer first).1.toOption.map RoundScores.total = some 3 := by
    decide +kernel
  have unscored : ((Engine.sample .usual).answer second).1.toOption.isNone := by
    decide
  obtain ⟨alone, swapped⟩ := topics_are_isolated (Engine.sample .usual)
  obtain ⟨one, two, same⟩ := swapped rfl first second apart
  exact ⟨_, first, second, rfl, apart, ⟨scored, unscored⟩, one, two, same,
    alone first second.topic apart.symm⟩

end RoundScoring
