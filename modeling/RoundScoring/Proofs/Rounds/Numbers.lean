import RoundScoring.Proofs.Binary64.Moderate
import RoundScoring.Proofs.Binary64.Rounds
import RoundScoring.Proofs.Rounds.History
import RoundScoring.Proofs.Rounds.Refusing

/-!
Which rounds write nothing but finite numbers. The checks of a config and of stakes are comparisons,
which a value that is no number passes, so such a value can reach a score. Where settings and stakes
are of moderate size no round writes one: it is refused with a fault of scoring and leaves the ledger
alone, or all that it writes is finite.
-/

namespace RoundScoring

open Binary64

/-- Settings and stakes of moderate size. Where passes are made there must be a tolerance to judge
deviations by, and coefficients that can be scaled. -/
structure Round.Moderate (config : Consensus.Config Float) (topic : Int) (ledger : Ledger Float) :
    Prop where
  max : config.maxCoefficient ≤ 1e150
  stakes : ∀ reputer stake, ledger.stakes.get? (topic, reputer) = some stake → stake ≤ 1e150
  passes : config.maxPasses = 0 ∨ (1e-150 ≤ config.tolerance ∧ config.tolerance ≤ 1e150) ∧
    ∀ reputer, config.Lifts (ledger.coefficient topic reputer)

theorem Round.Moderate.within_computed {policy : Policy Float} {topic : Int} {ledger : Ledger Float}
    (moderate : Moderate policy.consensus topic ledger) {submissions : List (Submission Float)}
    {consensus : Consensus Float} {reputers : List (Address × Bundle Float)}
    {roster : OrderedSet Address} {reports : List (Consensus.Report Float)}
    (computed : Computed policy topic submissions ledger consensus reputers roster reports) :
    (∀ entry ∈ consensus.scores.entries, entry.2.isFinite = true) ∧
      ∀ entry ∈ consensus.coefficients.entries,
        Within 0 (2 * value policy.consensus.maxCoefficient) entry.2 := by
  have origin : ∀ report ∈ Consensus.taking reports, ∃ pair ∈ reputers,
      Reported policy topic ledger roster pair report := by
    intro report inside
    have member := (List.mem_filter.mp inside).1
    obtain ⟨pair, listed, reported⟩ := exists_left_of_forall₂ computed.reported member
    exact ⟨pair, listed, reported⟩
  refine Consensus.within_of_aggregate moderate.max ?_ ?_ ?_ ?_ computed.aggregated
  · intro report inside
    obtain ⟨pair, -, reported⟩ := origin report inside
    exact moderate.stakes pair.1 report.stake reported.stake
  · intro report inside
    obtain ⟨pair, -, reported⟩ := origin report inside
    rw [reported.coefficient]
    exact ledger.coefficient_nonneg topic pair.1
  · intro report inside
    obtain ⟨pair, -, reported⟩ := origin report inside
    have takes := (List.mem_filter.mp inside).2
    exact Coverage.losses_ne_nil_of_filter reported.coverage (Bool.and_eq_true_iff.mp takes).1
  · refine moderate.passes.imp_right (And.imp_right fun lifts report inside => ?_)
    obtain ⟨pair, -, reported⟩ := origin report inside
    rw [reported.coefficient]
    exact lifts pair.1

/-- With settings and stakes of moderate size a round is refused by scoring and writes nothing, or it
writes finite scores and finite coefficients. Losses, stored coefficients and how many there are of
anything may be whatever they are. -/
theorem moderate_round_writes_finite_numbers {policy : Policy Float} {topic : Int}
    {keeper : Keeper Float} (working : keeper.outage = none)
    (moderate : Round.Moderate policy.consensus topic keeper.ledger) (block : Int)
    (submissions : List (Round.Submission Float)) :
    (∀ fault after, keeper.run (Round.scoreReputers policy topic block submissions) =
        (.error fault, after) → fault.kind.IsScoring ∧ after.ledger = keeper.ledger) ∧
      ∀ scored after, keeper.run (Round.scoreReputers policy topic block submissions) =
        (.ok scored, after) →
          ReputersEffect topic block scored keeper.ledger after.ledger ∧
            (∀ score ∈ scored.scores, score.value.isFinite = true) ∧
            ∀ entry ∈ scored.consensus.coefficients.entries, entry.2.isFinite = true := by
  constructor
  · intro fault after failed
    have nonneg : ∀ consensus reputers roster reports,
        Round.Computed policy topic submissions keeper.ledger consensus reputers roster reports →
        ∀ entry ∈ consensus.coefficients.entries, 0 ≤ entry.2 := by
      intro consensus reputers roster reports computed entry inside
      have within := (moderate.within_computed computed).2 entry inside
      rw [le_iff value_zero.1 within.finite, value_zero.2]
      exact within.low_le
    have scoring := Round.scoring_scoreReputers working nonneg block fault (congrArg Prod.fst failed)
    exact ⟨scoring, allOrNothing_scoreReputers _ _ _ _ _ _ _ failed⟩
  · intro scored after ran
    obtain ⟨reputers, roster, reports, computed⟩ := Round.computed_of_run_scoreReputers ran
    obtain ⟨scores, coefficients⟩ := moderate.within_computed computed
    refine ⟨reputersEffect_of_run ran, ?_, fun entry inside => (coefficients entry inside).finite⟩
    rw [Round.reputers_of_run_scoreReputers ran]
    exact List.forall_mem_map.mpr scores

/-- A keeper with a stake as large and one as small as may be, a coefficient that is infinite, and
nobody on the roster. -/
def Keeper.lopsided : Keeper Float where
  ledger := {
    stakes := .ofList [((1, .sample 1), 1e150), ((1, .sample 2), 5e-324)]
    coefficients := .ofList [((1, .sample 1), ⟨infinity, by decide⟩)]
    rosters := .ofList [(1, .empty)] }

theorem Round.moderate_lopsided :
    Moderate Engine.pair.policy.consensus 1 Keeper.lopsided.ledger where
  max := by decide +kernel
  stakes reputer stake known := by
    have listed : Keeper.lopsided.ledger.stakes.entries =
        [((1, .sample 1), 1e150), ((1, .sample 2), 5e-324)] := rfl
    have inside := Table.mem_entries_of_get? known
    rw [listed, List.mem_pair] at inside
    rcases inside with same | same
    · have worth : stake = 1e150 := congrArg Prod.snd same
      rw [worth]
      decide +kernel
    · have worth : stake = 5e-324 := congrArg Prod.snd same
      rw [worth]
      decide +kernel
  passes := .inr ⟨by decide +kernel, fun _ => .inl (by decide +kernel)⟩

/-- The least and the largest loss are scored there with the usual parameters. -/
theorem lopsided_round_writes_finite_numbers :
    Keeper.lopsided.outage = none ∧
      Round.Moderate Engine.pair.policy.consensus 1 Keeper.lopsided.ledger ∧
      ∃ scored after, Keeper.lopsided.run (Round.scoreReputers Engine.pair.policy 1 1
          (Round.Submission.pair 5e-324 1.7976931348623157e308)) = (.ok scored, after) ∧
        ReputersEffect 1 1 scored Keeper.lopsided.ledger after.ledger ∧
        (∀ score ∈ scored.scores, score.value.isFinite = true) ∧
        ∀ entry ∈ scored.consensus.coefficients.entries, entry.2.isFinite = true := by
  have working : Keeper.lopsided.outage = none := rfl
  obtain ⟨-, written⟩ := moderate_round_writes_finite_numbers working Round.moderate_lopsided 1
    (Round.Submission.pair 5e-324 1.7976931348623157e308)
  have returns : (Keeper.lopsided.run (Round.scoreReputers Engine.pair.policy 1 1
      (Round.Submission.pair 5e-324 1.7976931348623157e308))).1.isOk = true := by
    decide +kernel
  generalize Keeper.lopsided.run _ = outcome at returns written ⊢
  obtain ⟨fault | scored, after⟩ := outcome
  · cases returns
  · exact ⟨working, Round.moderate_lopsided, scored, after, rfl, written scored after rfl⟩

def Consensus.Config.passless : Consensus.Config Float := { Consensus.Config.usual with maxPasses := 0 }

def Keeper.unstaked : Keeper Float where
  ledger := {
    stakes := .ofList [((1, .sample 1), notANumber)]
    rosters := .ofList [(1, .empty)] }

def Round.Submission.lone : List (Round.Submission Float) :=
  [⟨(Address.sample 1).text, ⟨1, some 1, none, [], [], []⟩⟩]

/-- A stake that is no number passes the checks. Without passes it becomes a score that is none; with
passes it becomes a coefficient that is refused, which is no fault of scoring. -/
theorem stake_of_no_number_is_scored :
    (∃ scored after, Keeper.unstaked.run (Round.scoreReputers
        ⟨some Address.usualHrp, .passless⟩ 1 1 Round.Submission.lone) = (.ok scored, after) ∧
      ∃ entry ∈ after.ledger.reputerScores.entries, entry.2.value.isFinite = false) ∧
    ∃ fault after, Keeper.unstaked.run (Round.scoreReputers
        ⟨some Address.usualHrp, .usual⟩ 1 1 Round.Submission.lone) = (.error fault, after) ∧
      ¬fault.kind.IsScoring := by
  constructor
  · have returns : (Keeper.unstaked.run (Round.scoreReputers
        ⟨some Address.usualHrp, .passless⟩ 1 1 Round.Submission.lone)).1.isOk = true := by
      decide
    have written : ((Keeper.unstaked.run (Round.scoreReputers ⟨some Address.usualHrp, .passless⟩ 1 1
        Round.Submission.lone)).2.ledger.reputerScores.entries.any
          fun entry => !entry.2.value.isFinite) = true := by
      decide +kernel
    generalize Keeper.unstaked.run _ = outcome at returns written
    obtain ⟨fault | scored, after⟩ := outcome
    · cases returns
    · obtain ⟨entry, inside, infinite⟩ := List.any_eq_true.mp written
      exact ⟨scored, after, rfl, entry, inside, by simpa using infinite⟩
  · have refused : ((Keeper.unstaked.run (Round.scoreReputers
        ⟨some Address.usualHrp, .usual⟩ 1 1 Round.Submission.lone)).1.mapError Fault.kind).map
          (fun _ => ()) = .error .validation := by
      decide +kernel
    generalize Keeper.unstaked.run _ = outcome at refused
    obtain ⟨fault | scored, after⟩ := outcome
    · have kind : fault.kind = .validation := Except.error.inj refused
      exact ⟨fault, after, rfl, kind ▸ id⟩
    · cases refused

end RoundScoring
