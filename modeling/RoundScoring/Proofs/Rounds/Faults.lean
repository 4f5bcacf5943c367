import RoundScoring.Proofs.Failing
import RoundScoring.Proofs.Rounds.Reading

/-!
The faults of the reputers' part of a round, stage by stage. Each stage is given the faults it can end
with; whether a coefficient is refused is left to whoever knows what coefficients are written.
-/

namespace RoundScoring

variable {R : Type} {allowed : Fault R → Prop}

theorem Round.within_refuseRepeated (repeated : ∀ reputer, allowed (.reputerTwice reputer))
    (seen reputers : List Address) : Fault.Within allowed (refuseRepeated seen reputers) := by
  induction reputers generalizing seen with
  | nil => exact Fault.within_ok ()
  | cons reputer rest ih =>
    unfold refuseRepeated
    split
    next => exact Fault.within_error (repeated reputer)
    next => exact ih _

section Reading

variable (identities : ∀ problem, allowed (.identity problem))

include identities

theorem Round.within_readAccount (required : Option String) (text : String) :
    Fault.Within allowed (readAccount required text) := by
  unfold readAccount
  cases Address.parse required text with
  | ok a => exact Fault.within_ok a
  | error problem => exact Fault.within_error (identities problem)

theorem Round.within_readReputers (repeated : ∀ reputer, allowed (.reputerTwice reputer))
    (required : Option String) (submissions : List (Submission R)) :
    Fault.Within allowed (readReputers required submissions) := by
  refine (Fault.within_mapM (fun submission => ?_) submissions).bind fun read _ =>
    (within_refuseRepeated repeated [] _).bind fun _ _ => Fault.within_ok read
  exact (within_readAccount identities required submission.reputer).bind fun _ _ => Fault.within_ok _

theorem Bundle.within_valuesFor (repeated : ∀ text category, allowed (.workerTwice text category))
    (required : Option String) (bundle : Bundle R) (category : WorkerCategory) :
    Fault.Within allowed (bundle.valuesFor required category) := by
  refine Fault.within_foldlM (fun seen entry => ?_) _ _
  unfold enter
  split
  next problem _ => exact Fault.within_error (identities problem)
  next =>
    split
    next => exact Fault.within_error (repeated _ _)
    next => exact Fault.within_ok _

theorem Coverage.within_filter [Scalar R]
    (repeated : ∀ text category, allowed (.workerTwice text category)) (required : Option String)
    (roster : OrderedSet Address) (reputer : Address) (bundle : Bundle R) :
    Fault.Within allowed (filter required roster reputer bundle) := by
  refine (Fault.within_mapM (fun category => ?_) _).bind fun _ _ => Fault.within_ok _
  exact (bundle.within_valuesFor identities repeated required category).bind fun _ _ =>
    Fault.within_ok _

end Reading

open Keeper

variable [Scalar R]

structure Round.ReadingFaults (allowed : Fault R → Prop) : Prop where
  outages : ∀ exception message, allowed (.outage exception message)
  identities : ∀ problem, allowed (.identity problem)
  workers : ∀ text category, allowed (.workerTwice text category)
  reputers : ∀ reputer, allowed (.reputerTwice reputer)
  stakes : ∀ reputer topic, allowed (.unknownStake reputer topic)
  rosters : ∀ topic, allowed (.unknownRoster topic)

theorem Round.failsWithin_readReport (fine : ReadingFaults allowed) (policy : Policy R)
    (topic : Int) (roster : OrderedSet Address) (reputer : Address) (bundle : Bundle R) :
    FailsWithin allowed (readReport policy topic roster reputer bundle) :=
  (failsWithin_readStake fine.outages _ _ (fine.stakes _ _)).bind fun _ _ _ _ =>
    (failsWithin_readCoefficient fine.outages _ _).bind fun _ _ _ _ =>
      (failsWithin_lift (Coverage.within_filter fine.identities fine.workers _ _ _ _)).bind
        fun _ _ _ _ => failsWithin_pure _

theorem Round.failsWithin_consensus (fine : ReadingFaults allowed) {policy : Policy R}
    (aggregates : ∀ reports, Fault.Within allowed (Consensus.aggregate policy.consensus reports))
    (topic : Int) (submissions : List (Submission R)) :
    FailsWithin allowed (consensus policy topic submissions) :=
  (failsWithin_lift (within_readReputers fine.identities fine.reputers _ _)).bind fun _ _ _ _ =>
    (failsWithin_readRoster fine.outages _ (fine.rosters _)).bind fun _ _ _ _ =>
      (failsWithin_mapM (fun _ => failsWithin_readReport fine _ _ _ _ _) _).bind fun _ _ _ _ =>
        failsWithin_lift (aggregates _)

theorem Round.failsWithin_scoreReputers (fine : ReadingFaults allowed) {policy : Policy R}
    (aggregates : ∀ reports, Fault.Within allowed (Consensus.aggregate policy.consensus reports))
    (nonneg : ∀ reports consensus, Consensus.aggregate policy.consensus reports = .ok consensus →
      ∀ entry ∈ consensus.coefficients.entries, 0 ≤ entry.2)
    (recorded : ∀ kind account topic block, allowed (.scoreRecorded kind account topic block))
    (topic block : Int) (submissions : List (Submission R)) :
    FailsWithin allowed (scoreReputers policy topic block submissions) := by
  refine (failsWithin_consensus fine aggregates topic submissions).bind
    fun keeper after consensus ran => ?_
  obtain ⟨_, _, reports, origin⟩ := computed_of_run ran
  refine FailsWithin.bind (FailsWithin.transaction fine.outages ?_) fun _ _ _ _ => failsWithin_pure _
  refine (failsWithin_forM fun entry inside => ?_).bind fun _ _ _ _ =>
    failsWithin_forM fun score _ => failsWithin_insertScore fine.outages _ _ _ _ (recorded _ _ _ _)
  exact failsWithin_writeCoefficient fine.outages _ _ (nonneg _ _ origin.aggregated entry inside)

end RoundScoring
