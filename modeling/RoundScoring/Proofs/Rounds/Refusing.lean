import RoundScoring.Proofs.Rounds.Faults
import RoundScoring.Proofs.Staying

/-!
How the reputers' part of a round fails on a keeper without an outage. What is read and what is
aggregated is refused with faults of scoring, and so is a score that is recorded already; nothing
else can go wrong, as long as no coefficient is refused.
-/

namespace RoundScoring

variable {R α β : Type}

/-- The kinds of faults that are scoring's own. The others come from what it is built on. -/
def Fault.Kind.IsScoring : Kind → Prop
  | .domain | .invalidInput | .identity | .notFound | .duplicateScore => True
  | _ => False

def Fault.RefusesInput (fault : Fault R) : Prop := fault.kind = .invalidInput

namespace Consensus

variable [Scalar R]

theorem refuses_weightedLogLoss (weights losses : List R) :
    Fault.Within Fault.RefusesInput (Loss.weightedLogLoss weights losses) := by
  unfold Loss.weightedLogLoss
  split_ifs
  · exact Fault.within_error rfl
  · exact Fault.within_error rfl
  · exact Fault.within_error rfl
  · exact Fault.within_error rfl
  · exact Fault.within_error rfl
  · exact Fault.within_ok _

theorem refuses_levelsOf (keys : OrderedSet LossKey) (reports : List (Report R)) :
    Fault.Within Fault.RefusesInput (levelsOf keys reports) := by
  apply Fault.within_mapM
  intro key
  exact (refuses_weightedLogLoss _ _).bind fun _ _ => Fault.within_ok _

theorem refuses_settle (config : Config R) (keys : OrderedSet LossKey) (remaining : Nat)
    (reports : List (Report R)) (done : Nat) :
    Fault.Within Fault.RefusesInput (settle config keys remaining reports done) := by
  induction remaining generalizing reports done with
  | zero => exact Fault.within_ok _
  | succ remaining ih =>
    have passes : Fault.Within Fault.RefusesInput (pass config keys reports) :=
      (refuses_levelsOf keys reports).bind fun _ _ => Fault.within_ok _
    apply passes.bind
    intro moved _
    split
    next => exact Fault.within_ok _
    next => exact ih moved (done + 1)

theorem refuses_aggregate (config : Config R) (reports : List (Report R)) :
    Fault.Within Fault.RefusesInput (aggregate config reports) := by
  have checks : Fault.Within Fault.RefusesInput
      (checkStakes (reports.filter Report.takesPart)) := by
    unfold checkStakes
    split_ifs
    · exact Fault.within_error rfl
    · exact Fault.within_error rfl
    · exact Fault.within_ok ()
  unfold aggregate
  dsimp only
  split
  next => exact Fault.within_ok _
  next =>
    apply checks.bind
    intro _ _
    apply (refuses_settle _ _ _ _ _).bind
    intro _ _
    exact (refuses_levelsOf _ _).bind fun _ _ => Fault.within_ok _

end Consensus

namespace Keeper

variable [Scalar R] {allowed : Fault R → Prop}

/-- On a keeper without an outage, a fault is among those allowed. -/
def WorkingWithin (allowed : Fault R → Prop) (work : Keeping R α) : Prop :=
  ∀ keeper : Keeper R, keeper.outage = none → Fault.Within allowed (keeper.run work).1

theorem FailsWithin.working {work : Keeping R α} (fine : FailsWithin allowed work) :
    WorkingWithin allowed work := fun keeper _ => fine keeper

theorem workingWithin_attempt {call : Call} {next : Unit → Keeping R α}
    (fine : WorkingWithin allowed (next ())) : WorkingWithin allowed (attempt call >>= next) := by
  intro keeper working
  rw [run_bind, run_attempt_of_none working]
  exact fine keeper working

theorem WorkingWithin.bind {work : Keeping R α} {next : α → Keeping R β}
    (first : WorkingWithin allowed work) (stays : StaysWorking work)
    (second : ∀ a, WorkingWithin allowed (next a)) : WorkingWithin allowed (work >>= next) := by
  intro keeper working
  apply within_run_bind (first keeper working)
  intro a after ran
  have still := stays keeper working
  rw [ran] at still
  exact second a after still

theorem workingWithin_mapM {step : α → Keeping R β} (each : ∀ a, WorkingWithin allowed (step a))
    (stays : ∀ a, StaysWorking (step a)) (as : List α) : WorkingWithin allowed (as.mapM step) := by
  induction as with
  | nil => exact (failsWithin_pure []).working
  | cons a as ih =>
    rw [List.mapM_cons]
    apply (each a).bind (stays a)
    intro b
    apply ih.bind (staysWorking_mapM stays as)
    intro bs
    exact (failsWithin_pure (b :: bs)).working

theorem workingWithin_forM {step : α → Keeping R PUnit} {as : List α}
    (each : ∀ a ∈ as, WorkingWithin allowed (step a)) (stays : ∀ a, StaysWorking (step a)) :
    WorkingWithin allowed (as.forM step) := by
  induction as with
  | nil => exact (failsWithin_pure _).working
  | cons a as ih =>
    obtain ⟨first, rest⟩ := List.forall_mem_cons.mp each
    apply first.bind (stays a)
    intro _
    exact ih rest

theorem WorkingWithin.transaction {body : Keeping R α} (fine : WorkingWithin allowed body) :
    WorkingWithin allowed (transaction body) := by
  apply workingWithin_attempt
  intro keeper working
  have inner := fine keeper working
  rw [run_undoing]
  split
  next a after ran => exact Fault.within_ok a
  next fault after ran =>
    rw [ran] at inner
    exact Fault.within_error (inner fault rfl)

end Keeper

open Keeper

variable [Scalar R]

abbrev Fault.FromScoring (fault : Fault R) : Prop := fault.kind.IsScoring

namespace Round

theorem scoring_readStake (topic : Int) (reputer : Address) :
    WorkingWithin Fault.FromScoring (readStake topic reputer : Keeping R R) := by
  apply workingWithin_attempt
  refine (failsWithin_readLedger.bind fun _ _ ledger _ => ?_).working
  split
  next stake _ => exact failsWithin_pure stake
  next => exact failsWithin_throw trivial

theorem scoring_readRoster (topic : Int) :
    WorkingWithin Fault.FromScoring (readRoster topic : Keeping R (OrderedSet Address)) := by
  apply workingWithin_attempt
  refine (failsWithin_readLedger.bind fun _ _ ledger _ => ?_).working
  split
  next roster _ => exact failsWithin_pure roster
  next => exact failsWithin_throw trivial

theorem scoring_insertScore (kind : ScoreKind) (topic block : Int) (score : Score R) :
    WorkingWithin Fault.FromScoring (insertScore kind topic block score) := by
  apply workingWithin_attempt
  refine (failsWithin_readLedger.bind fun _ _ ledger _ => ?_).working
  dsimp only
  split
  next => exact failsWithin_throw trivial
  next => exact failsWithin_writeLedger _

theorem scoring_writeCoefficient (topic : Int) (reputer : Address) {value : R} (nonneg : 0 ≤ value) :
    WorkingWithin Fault.FromScoring (writeCoefficient topic reputer value) := by
  unfold writeCoefficient
  rw [dif_pos nonneg]
  exact workingWithin_attempt (failsWithin_writeLedger _).working

theorem scoring_readReport (policy : Policy R) (topic : Int) (roster : OrderedSet Address)
    (reputer : Address) (bundle : Bundle R) :
    WorkingWithin Fault.FromScoring (readReport policy topic roster reputer bundle) := by
  have coefficient : WorkingWithin Fault.FromScoring (readCoefficient topic reputer : Keeping R R) :=
    workingWithin_attempt (failsWithin_readLedger.bind fun _ _ _ _ => failsWithin_pure _).working
  have filters : Fault.Within Fault.FromScoring
      (Coverage.filter policy.required roster reputer bundle) :=
    Coverage.within_filter (fun _ => trivial) (fun _ _ => trivial) _ _ _ _
  apply (scoring_readStake topic reputer).bind (staysWorking_readStake _ _)
  intro _
  apply coefficient.bind (staysWorking_readCoefficient _ _)
  intro _
  exact ((failsWithin_lift filters).bind fun _ _ _ _ => failsWithin_pure _).working

theorem scoring_consensus (policy : Policy R) (topic : Int) (submissions : List (Submission R)) :
    WorkingWithin Fault.FromScoring (consensus policy topic submissions) := by
  have reads : Fault.Within Fault.FromScoring (readReputers policy.required submissions) :=
    within_readReputers (fun _ => trivial) (fun _ => trivial) _ _
  have aggregates : ∀ reports, Fault.Within Fault.FromScoring
      (Consensus.aggregate policy.consensus reports) := by
    intro reports fault failed
    have kind : fault.kind = .invalidInput := Consensus.refuses_aggregate _ _ fault failed
    rw [Fault.FromScoring, kind]
    trivial
  apply (failsWithin_lift reads).working.bind (staysWorking_lift _)
  intro reputers
  apply (scoring_readRoster topic).bind (staysWorking_readRoster _)
  intro roster
  apply (workingWithin_mapM (fun _ => scoring_readReport _ _ _ _ _)
    (fun _ => staysWorking_readReport _ _ _ _ _) _).bind
  · exact staysWorking_mapM (fun _ => staysWorking_readReport _ _ _ _ _) _
  · intro reports
    exact (failsWithin_lift (aggregates reports)).working

theorem scoring_scoreReputers {policy : Policy R} {topic : Int} {submissions : List (Submission R)}
    {keeper : Keeper R} (working : keeper.outage = none)
    (nonneg : ∀ consensus reputers roster reports,
      Computed policy topic submissions keeper.ledger consensus reputers roster reports →
      ∀ entry ∈ consensus.coefficients.entries, 0 ≤ entry.2) (block : Int) :
    Fault.Within Fault.FromScoring
      (keeper.run (scoreReputers policy topic block submissions)).1 := by
  apply within_run_bind (scoring_consensus policy topic submissions keeper working)
  intro consensus after ran
  obtain ⟨reputers, roster, reports, computed⟩ := computed_of_run ran
  have still := staysWorking_consensus policy topic submissions keeper working
  rw [ran] at still
  refine within_run_bind (WorkingWithin.transaction ?_ after still) fun _ _ _ => Fault.within_ok _
  refine WorkingWithin.bind (workingWithin_forM (fun entry inside => ?_) fun _ => ?_) ?_ fun _ => ?_
  · exact scoring_writeCoefficient topic entry.1 (nonneg _ _ _ _ computed entry inside)
  · exact staysWorking_writeCoefficient _ _ _
  · exact staysWorking_forM (fun _ => staysWorking_writeCoefficient _ _ _) _
  · exact workingWithin_forM (fun _ _ => scoring_insertScore _ _ _ _)
      fun _ => staysWorking_insertScore _ _ _ _

end Round

end RoundScoring
