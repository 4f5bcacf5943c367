import RoundScoring.Proofs.Bech32.Printed
import RoundScoring.Proofs.Rounds.History
import RoundScoring.Proofs.Rounds.Retelling
import RoundScoring.Proofs.Rounds.Scoring

/-!
One record for one account. Tables of scores are keyed by texts and accounts are not texts, so that an
account with two spellings might have two scores of one round. It has not: whoever is scored was read
from some text, be it one of a submission, of the roster or of the network, and is stored by the text
that is written for it, which no other account has.
-/

namespace RoundScoring

open Keeper

structure Address.Canonical (required : Option String) (text : String) (a : Address) : Prop where
  parsed : parse required text = .ok a
  written : text = a.text
  lower : text.toLower = text

theorem Address.Canonical.of_parse {required : Option String} {text : String} {a : Address}
    (parsed : parse required text = .ok a) : Canonical required a.text a where
  parsed := parse_text parsed
  written := rfl
  lower := (text_of_parse (parse_text parsed)).symm

variable {R : Type}

/-- A score stands under its own topic, block and account, and its account is written canonically. -/
structure Score.WellKept (required : Option String) (key : ScoreKey) (score : Score R) : Prop where
  keyed : key = ⟨score.topic, score.block, score.account⟩
  canonical : ∃ a, Address.Canonical required score.account a

variable [Scalar R]

def Ledger.WellKept (required : Option String) (ledger : Ledger R) : Prop :=
  ∀ kind, ∀ entry ∈ (ledger.scores kind).entries, entry.2.WellKept required entry.1

theorem Ledger.WellKept.eq_of_account {required : Option String} {ledger : Ledger R}
    (kept : ledger.WellKept required) {kind : ScoreKind} {left right : ScoreKey × Score R}
    (insideLeft : left ∈ (ledger.scores kind).entries)
    (insideRight : right ∈ (ledger.scores kind).entries) (topic : left.2.topic = right.2.topic)
    (block : left.2.block = right.2.block) {a : Address}
    (parsedLeft : Address.parse required left.2.account = .ok a)
    (parsedRight : Address.parse required right.2.account = .ok a) : left = right := by
  obtain ⟨keyedLeft, _, canonicalLeft⟩ := kept kind left insideLeft
  obtain ⟨keyedRight, _, canonicalRight⟩ := kept kind right insideRight
  cases canonicalLeft.parsed.symm.trans parsedLeft
  cases canonicalRight.parsed.symm.trans parsedRight
  have sameKey : left.1 = right.1 := by
    rw [keyedLeft, keyedRight, topic, block, canonicalLeft.written, canonicalRight.written]
  have found := Table.get?_of_mem_entries insideLeft
  rw [sameKey, Table.get?_of_mem_entries insideRight] at found
  exact Prod.ext sameKey (Option.some.inj found).symm

namespace Round

variable {policy : Policy R} {topic block : Int} {strict : Bool} {network : Bundle R}
  {keeper after : Keeper R}

def Named (required : Option String) (scores : List (Score R)) : Prop :=
  ∀ s ∈ scores, ∃ text a, Address.parse required text = .ok a ∧ s.account = a.text

theorem named_of_run_scoreReputers {submissions : List (Submission R)} {scored : ReputerScores R}
    (ran : keeper.run (scoreReputers policy topic block submissions) = (.ok scored, after)) :
    Named policy.required scored.scores := by
  obtain ⟨_, _, _, computed⟩ := computed_of_run_scoreReputers ran
  rw [reputers_of_run_scoreReputers ran]
  rintro s inside
  obtain ⟨entry, scores, rfl⟩ := List.mem_map.mp inside
  exact ⟨_, _, computed.readable (List.mem_map_of_mem scores), rfl⟩

theorem named_of_run_scoreInferers {scores : List (Score R)}
    (ran : keeper.run (scoreInferers policy topic block strict network) = (.ok scores, after)) :
    Named policy.required scores := by
  obtain ⟨computed, computes, rfl⟩ := computed_of_run_scoreInferers ran
  obtain ⟨_, read, _⟩ := Fault.bind_eq_ok_iff.mp computes
  rcases inferenceScores_eq_ok read computes with ⟨-, rfl⟩ | ⟨_, _, -, -, rfl, each⟩
  · rintro s ⟨⟩
  · intro s inside
    obtain ⟨pair, member, rfl⟩ := exists_left_of_forall₂ each inside
    obtain ⟨text, parsed⟩ := Bundle.parsed_of_valuesFor read (List.mem_map_of_mem member)
    exact ⟨text, pair.1, parsed, rfl⟩

theorem named_of_run_scoreForecasters {scores : List (Score R)}
    (ran : keeper.run (scoreForecasters policy topic block strict network) = (.ok scores, after)) :
    Named policy.required scores := by
  obtain ⟨computed, computes, rfl⟩ := computed_of_run_scoreForecasters ran
  obtain ⟨_, readOut, rest⟩ := Fault.bind_eq_ok_iff.mp computes
  obtain ⟨_, readIn, _⟩ := Fault.bind_eq_ok_iff.mp rest
  rcases forecastScores_eq_ok readOut readIn computes with
    ⟨-, rfl⟩ | ⟨_, _, _, _, -, -, -, rfl, each⟩
  · rintro s ⟨⟩
  · intro s inside
    obtain ⟨pair, member, _, -, rfl⟩ := exists_left_of_forall₂ each inside
    have alone := List.mem_map_of_mem (f := Prod.fst) (List.mem_filter.mp member).1
    obtain ⟨text, parsed⟩ := Bundle.parsed_of_valuesFor readIn alone
    exact ⟨text, pair.1, parsed, rfl⟩

end Round

variable {engine : Engine R} {request : Round.Request R}

theorem named_of_answer {round : RoundScores R} (returned : (engine.answer request).1 = .ok round)
    (kind : ScoreKind) : Round.Named engine.policy.required (round.scores kind) := by
  obtain ⟨_, _, _, _, scored, -⟩ := scored_of_scoreRound (Prod.ext returned rfl :
    engine.answer request = (.ok round, (engine.answer request).2))
  cases kind with
  | reputer => exact Round.named_of_run_scoreReputers scored.reputers
  | inference => exact Round.named_of_run_scoreInferers scored.inferences
  | forecast => exact Round.named_of_run_scoreForecasters scored.forecasts

theorem wellKept_of_answer (kept : engine.keeper.ledger.WellKept engine.policy.required) :
    (engine.answer request).2.keeper.ledger.WellKept engine.policy.required := by
  cases outcome : (engine.answer request).1 with
  | error fault =>
    rw [unchanged_of_answer outcome]
    exact kept
  | ok round =>
    intro kind entry inside
    have gained := (answered_of_answer outcome).effect.gained kind
    rw [gained.entries, List.mem_append] at inside
    rcases inside with old | new
    · exact kept kind entry old
    · obtain ⟨score, scored, rfl⟩ := List.mem_map.mp new
      obtain ⟨_, a, parsed, account⟩ := named_of_answer outcome kind score scored
      obtain ⟨topic, block⟩ := gained.placed score scored
      refine ⟨?_, a, ?_⟩
      · rw [topic, block]
        rfl
      · dsimp only
        rw [account]
        exact .of_parse parsed

theorem wellKept_after (engine : Engine R) (requests : List (Round.Request R))
    (kept : engine.keeper.ledger.WellKept engine.policy.required) :
    (engine.after requests).keeper.ledger.WellKept engine.policy.required := by
  -- The required human readable part is that of the policy, which no request changes.
  induction requests generalizing engine with
  | nil => exact kept
  | cons request later ih =>
    have policy : (engine.answer request).2.policy = engine.policy :=
      policy_of_scoreRound engine _ _ _ _
    have next := ih (engine.answer request).2
    rw [policy] at next
    exact next (wellKept_of_answer kept)

/-- Requests may be answered or not, and the keeper may be out of order in any way. -/
theorem one_record_per_account (engine : Engine R)
    (blank : ∀ kind, (engine.keeper.ledger.scores kind).entries = [])
    (requests : List (Round.Request R)) (kind : ScoreKind) :
    let required := engine.policy.required
    let entries := ((engine.after requests).keeper.ledger.scores kind).entries
    (∀ entry ∈ entries, entry.2.WellKept required entry.1) ∧
    ∀ left ∈ entries, ∀ right ∈ entries, left ≠ right →
      left.2.topic = right.2.topic → left.2.block = right.2.block →
      ∃ a b, Address.Canonical required left.2.account a ∧
        Address.Canonical required right.2.account b ∧ a ≠ b := by
  have kept : (engine.after requests).keeper.ledger.WellKept engine.policy.required := by
    refine wellKept_after engine requests fun kind entry inside => ?_
    rw [blank kind] at inside
    cases inside
  refine ⟨kept kind, fun left insideLeft right insideRight different topic block => ?_⟩
  obtain ⟨-, a, readsLeft⟩ := kept kind left insideLeft
  obtain ⟨-, b, readsRight⟩ := kept kind right insideRight
  refine ⟨a, b, readsLeft, readsRight, ?_⟩
  rintro rfl
  exact different
    (kept.eq_of_account insideLeft insideRight topic block readsLeft.parsed readsRight.parsed)

/-- The reputer comes in capitals and so do the workers; a second round of the block, in the usual
spelling, is refused. -/
theorem one_record_per_account_in_capitals :
    let engine : Engine Float := .sample .usual
    let requests : List (Round.Request Float) :=
      [⟨1, 1, [.noisy], some .capitals⟩, ⟨1, 1, [.sample 3 2], none⟩]
    let entries := ((engine.after requests).keeper.ledger.scores .inference).entries
    (∀ kind, (engine.keeper.ledger.scores kind).entries = []) ∧
    entries.map (fun entry => entry.2.account) = [(Address.sample 2).text, (Address.sample 1).text] ∧
    (∀ entry ∈ entries, entry.2.WellKept engine.policy.required entry.1) ∧
    ∀ left ∈ entries, ∀ right ∈ entries, left ≠ right →
      left.2.topic = right.2.topic → left.2.block = right.2.block →
      ∃ a b, Address.Canonical engine.policy.required left.2.account a ∧
        Address.Canonical engine.policy.required right.2.account b ∧ a ≠ b := by
  have blank : ∀ kind, ((Engine.sample (R := Float) .usual).keeper.ledger.scores kind).entries = [] := by
    intro kind
    cases kind <;> rfl
  exact ⟨blank, by decide +kernel, one_record_per_account _ blank _ .inference⟩

end RoundScoring
