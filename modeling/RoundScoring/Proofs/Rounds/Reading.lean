import RoundScoring.Proofs.Traversal
import RoundScoring.Round.Reputers

/-!
What a round reads before it writes. A consensus that was computed on a keeper is that of reports
which are what the ledger holds of each reputer and what counts of its bundle.
-/

namespace RoundScoring.Round

open Keeper

variable {R : Type}

theorem readAccount_eq_ok_iff {required : Option String} {text : String} {account : Address} :
    (readAccount required text : Except (Fault R) Address) = .ok account ↔
      Address.parse required text = .ok account := by
  unfold readAccount
  cases Address.parse required text <;> simp [Except.mapError]

def Submission.ReadAs (required : Option String) (submission : Submission R)
    (pair : Address × Bundle R) : Prop :=
  Address.parse required submission.reputer = .ok pair.1 ∧ pair.2 = submission.bundle

theorem readReputers_eq_ok_iff {required : Option String} {submissions : List (Submission R)}
    {reputers : List (Address × Bundle R)} :
    readReputers required submissions = .ok reputers ↔
      List.Forall₂ (Submission.ReadAs required) submissions reputers ∧
        refuseRepeated (R := R) [] (reputers.map Prod.fst) = .ok () := by
  have sent : ∀ (submission : Submission R) (pair : Address × Bundle R),
      (do return (← readAccount required submission.reputer, submission.bundle)) =
          (.ok pair : Except (Fault R) _) ↔ submission.ReadAs required pair := by
    intro submission pair
    rw [Fault.bind_eq_ok_iff]
    constructor
    · rintro ⟨reputer, account, packed⟩
      cases packed
      exact ⟨readAccount_eq_ok_iff.mp account, rfl⟩
    · obtain ⟨reputer, bundle⟩ := pair
      rintro ⟨parsed, rfl⟩
      exact ⟨reputer, readAccount_eq_ok_iff.mpr parsed, rfl⟩
  unfold readReputers
  rw [Fault.bind_eq_ok_iff]
  simp only [Fault.mapM_eq_ok_iff, sent]
  constructor
  · rintro ⟨read, each, rest⟩
    obtain ⟨_, distinct, packed⟩ := Fault.bind_eq_ok_iff.mp rest
    cases packed
    exact ⟨each, distinct⟩
  · rintro ⟨each, distinct⟩
    exact ⟨reputers, each, Fault.bind_eq_ok_iff.mpr ⟨(), distinct, rfl⟩⟩

theorem readReputers_eq_ok {required : Option String} {submissions : List (Submission R)}
    {reputers : List (Address × Bundle R)}
    (read : readReputers required submissions = .ok reputers) :
    List.Forall₂ (Submission.ReadAs required) submissions reputers :=
  (readReputers_eq_ok_iff.mp read).1

variable [Scalar R]

structure Reported (policy : Policy R) (topic : Int) (ledger : Ledger R)
    (roster : OrderedSet Address) (reputer : Address × Bundle R) (report : Consensus.Report R) :
    Prop where
  stake : ledger.stakes.get? (topic, reputer.1) = some report.stake
  coefficient : report.coefficient = ledger.coefficient topic reputer.1
  coverage : Coverage.filter policy.required roster reputer.1 reputer.2 = .ok report.coverage

structure Computed (policy : Policy R) (topic : Int) (submissions : List (Submission R))
    (ledger : Ledger R) (consensus : Consensus R) (reputers : List (Address × Bundle R))
    (roster : OrderedSet Address) (reports : List (Consensus.Report R)) : Prop where
  read : readReputers policy.required submissions = .ok reputers
  known : ledger.rosters.get? topic = some roster
  reported : List.Forall₂ (Reported policy topic ledger roster) reputers reports
  aggregated : Consensus.aggregate policy.consensus reports = .ok consensus

theorem keepsLedger_readReport (policy : Policy R) (topic : Int) (roster : OrderedSet Address)
    (reputer : Address) (bundle : Bundle R) :
    KeepsLedger (readReport policy topic roster reputer bundle) :=
  (keepsLedger_readStake _ _).bind fun _ => (keepsLedger_readCoefficient _ _).bind fun _ =>
    (keepsLedger_lift _).bind fun _ => keepsLedger_pure _

theorem keepsLedger_consensus (policy : Policy R) (topic : Int)
    (submissions : List (Submission R)) : KeepsLedger (consensus policy topic submissions) :=
  (keepsLedger_lift _).bind fun _ => (keepsLedger_readRoster _).bind fun _ =>
    (keepsLedger_mapM (fun _ => keepsLedger_readReport _ _ _ _ _) _).bind fun _ =>
      keepsLedger_lift _

theorem reported_of_run {policy : Policy R} {topic : Int} {roster : OrderedSet Address}
    {reputer : Address} {bundle : Bundle R} {report : Consensus.Report R} {keeper after : Keeper R}
    (ran : keeper.run (readReport policy topic roster reputer bundle) = (.ok report, after)) :
    Reported policy topic keeper.ledger roster (reputer, bundle) report := by
  obtain ⟨stake, staked, readsStake, rest⟩ := run_bind_eq_ok_iff.mp ran
  obtain ⟨value, listened, readsCoefficient, rest⟩ := run_bind_eq_ok_iff.mp rest
  obtain ⟨coverage, filters, rest⟩ := run_lift_bind_eq_ok_iff.mp rest
  have same := (keepsLedger_readStake _ _).of_run readsStake
  cases rest
  exact {
    stake := run_readStake_eq_ok readsStake
    coefficient := by rw [run_readCoefficient_eq_ok readsCoefficient, same]
    coverage := filters }

theorem reported_of_run_mapM {policy : Policy R} {topic : Int} {roster : OrderedSet Address}
    {reputers : List (Address × Bundle R)} {reports : List (Consensus.Report R)}
    {keeper after : Keeper R}
    (ran : keeper.run (reputers.mapM fun (reputer, bundle) =>
      readReport policy topic roster reputer bundle) = (.ok reports, after)) :
    List.Forall₂ (Reported policy topic keeper.ledger roster) reputers reports := by
  apply (run_mapM_eq_ok (fun _ => keepsLedger_readReport _ _ _ _ _) ran).imp
  rintro ⟨reputer, bundle⟩ report ⟨asked, _, ledger, found⟩
  rw [← ledger]
  exact reported_of_run found

theorem computed_of_run {policy : Policy R} {topic : Int} {submissions : List (Submission R)}
    {result : Consensus R} {keeper after : Keeper R}
    (ran : keeper.run (consensus policy topic submissions) = (.ok result, after)) :
    ∃ reputers roster reports,
      Computed policy topic submissions keeper.ledger result reputers roster reports := by
  obtain ⟨reputers, readsReputers, rest⟩ := run_lift_bind_eq_ok_iff.mp ran
  obtain ⟨roster, known, readsRoster, rest⟩ := run_bind_eq_ok_iff.mp rest
  have same := (keepsLedger_readRoster _).of_run readsRoster
  obtain ⟨reports, _, readsReports, rest⟩ := run_bind_eq_ok_iff.mp rest
  rw [run_lift] at rest
  refine ⟨reputers, roster, reports, readsReputers, run_readRoster_eq_ok readsRoster, ?_,
    congrArg Prod.fst rest⟩
  rw [← same]
  exact reported_of_run_mapM readsReports

theorem computed_of_run_scoreReputers {policy : Policy R} {topic block : Int}
    {submissions : List (Submission R)} {scored : ReputerScores R} {keeper after : Keeper R}
    (ran : keeper.run (scoreReputers policy topic block submissions) = (.ok scored, after)) :
    ∃ reputers roster reports,
      Computed policy topic submissions keeper.ledger scored.consensus reputers roster reports := by
  obtain ⟨_, _, computes, rest⟩ := run_bind_eq_ok_iff.mp ran
  obtain ⟨_, _, _, packed⟩ := run_bind_eq_ok_iff.mp rest
  cases packed
  exact computed_of_run computes

end RoundScoring.Round
