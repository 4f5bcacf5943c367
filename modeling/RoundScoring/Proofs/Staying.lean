import RoundScoring.Proofs.Keeping
import RoundScoring.Round.Engine

/-!
Work that breaks nothing. A keeper that lets every call through goes on doing so, whatever is done
through it and whether that returns or fails.
-/

namespace RoundScoring

namespace Keeper

variable {R : Type} [Scalar R] {α β : Type}

def StaysWorking (work : Keeping R α) : Prop :=
  ∀ keeper : Keeper R, keeper.outage = none → (keeper.run work).2.outage = none

theorem staysWorking_pure (a : α) : StaysWorking (pure a : Keeping R α) := fun _ working => working

theorem staysWorking_throw (fault : Fault R) : StaysWorking (throw fault : Keeping R α) :=
  fun _ working => working

theorem staysWorking_lift (outcome : Except (Fault R) α) :
    StaysWorking (liftM outcome : Keeping R α) := by
  intro keeper working
  rw [run_lift]
  exact working

theorem staysWorking_readLedger : StaysWorking (readLedger : Keeping R (Ledger R)) :=
  fun _ working => working

theorem staysWorking_writeLedger (change : Ledger R → Ledger R) :
    StaysWorking (writeLedger change) :=
  fun _ working => working

theorem staysWorking_attempt (call : Call) : StaysWorking (attempt call : Keeping R Unit) := by
  intro keeper working
  rw [run_attempt_of_none working]
  exact working

theorem StaysWorking.bind {work : Keeping R α} {next : α → Keeping R β} (first : StaysWorking work)
    (second : ∀ a, StaysWorking (next a)) : StaysWorking (work >>= next) := by
  intro keeper working
  have between := first keeper working
  rw [run_bind]
  split
  next ran =>
    rw [ran] at between
    exact second _ _ between
  next ran =>
    rw [ran] at between
    exact between

theorem staysWorking_mapM {step : α → Keeping R β} (each : ∀ a, StaysWorking (step a))
    (as : List α) : StaysWorking (as.mapM step) := by
  induction as with
  | nil => exact staysWorking_pure []
  | cons a as ih =>
    rw [List.mapM_cons]
    exact (each a).bind fun b => ih.bind fun bs => staysWorking_pure (b :: bs)

theorem staysWorking_forM {step : α → Keeping R PUnit} (each : ∀ a, StaysWorking (step a))
    (as : List α) : StaysWorking (as.forM step) := by
  induction as with
  | nil => exact staysWorking_pure _
  | cons a as ih => exact (each a).bind fun _ => ih

theorem StaysWorking.transaction {body : Keeping R α} (stays : StaysWorking body) :
    StaysWorking (transaction body) := by
  refine (staysWorking_attempt _).bind fun _ keeper working => ?_
  have still := stays keeper working
  rw [run_undoing]
  split
  next ran =>
    rw [ran] at still
    exact still
  next ran =>
    rw [ran] at still
    exact still

theorem staysWorking_readStake (topic : Int) (reputer : Address) :
    StaysWorking (readStake topic reputer : Keeping R R) := by
  refine (staysWorking_attempt _).bind fun _ => staysWorking_readLedger.bind fun ledger => ?_
  split
  next stake _ => exact staysWorking_pure stake
  next => exact staysWorking_throw _

theorem staysWorking_readCoefficient (topic : Int) (reputer : Address) :
    StaysWorking (readCoefficient topic reputer : Keeping R R) :=
  (staysWorking_attempt _).bind fun _ => staysWorking_readLedger.bind fun _ => staysWorking_pure _

theorem staysWorking_readRoster (topic : Int) :
    StaysWorking (readRoster topic : Keeping R (OrderedSet Address)) := by
  refine (staysWorking_attempt _).bind fun _ => staysWorking_readLedger.bind fun ledger => ?_
  split
  next roster _ => exact staysWorking_pure roster
  next => exact staysWorking_throw _

theorem staysWorking_writeCoefficient (topic : Int) (reputer : Address) (value : R) :
    StaysWorking (writeCoefficient topic reputer value) := by
  unfold writeCoefficient
  split
  next => exact (staysWorking_attempt _).bind fun _ => staysWorking_writeLedger _
  next => exact staysWorking_throw _

theorem staysWorking_insertScore (kind : ScoreKind) (topic block : Int) (score : Score R) :
    StaysWorking (insertScore kind topic block score) := by
  refine (staysWorking_attempt _).bind fun _ => staysWorking_readLedger.bind fun ledger => ?_
  dsimp only
  split
  next => exact staysWorking_throw _
  next => exact staysWorking_writeLedger _

end Keeper

open Keeper

variable {R : Type} [Scalar R]

namespace Round

theorem staysWorking_readReport (policy : Policy R) (topic : Int) (roster : OrderedSet Address)
    (reputer : Address) (bundle : Bundle R) :
    StaysWorking (readReport policy topic roster reputer bundle) :=
  (staysWorking_readStake _ _).bind fun _ => (staysWorking_readCoefficient _ _).bind fun _ =>
    (staysWorking_lift _).bind fun _ => staysWorking_pure _

theorem staysWorking_consensus (policy : Policy R) (topic : Int)
    (submissions : List (Submission R)) : StaysWorking (consensus policy topic submissions) := by
  refine (staysWorking_lift _).bind fun reputers => (staysWorking_readRoster _).bind fun roster =>
    (staysWorking_mapM (fun pair => ?_) _).bind fun _ => staysWorking_lift _
  exact staysWorking_readReport _ _ _ _ _

theorem staysWorking_scoreReputers (policy : Policy R) (topic block : Int)
    (submissions : List (Submission R)) :
    StaysWorking (scoreReputers policy topic block submissions) := by
  refine (staysWorking_consensus _ _ _).bind fun consensus =>
    (StaysWorking.transaction ?_).bind fun _ => staysWorking_pure _
  exact (staysWorking_forM (fun _ => staysWorking_writeCoefficient _ _ _) _).bind fun _ =>
    staysWorking_forM (fun _ => staysWorking_insertScore _ _ _ _) _

theorem staysWorking_record (kind : ScoreKind) (topic block : Int)
    (scores : Option (List (Score R))) : StaysWorking (record kind topic block scores) := by
  cases scores with
  | none => exact staysWorking_pure []
  | some scores =>
    refine (StaysWorking.transaction ?_).bind fun _ => staysWorking_pure _
    exact staysWorking_forM (fun _ => staysWorking_insertScore _ _ _ _) _

theorem staysWorking_score (policy : Policy R) (topic block : Int)
    (submissions : List (Submission R)) (given : Option (Bundle R)) :
    StaysWorking (score policy topic block submissions given) := by
  refine (staysWorking_scoreReputers _ _ _ _).bind fun _ => ?_
  have rest : ∀ (network : Bundle R) (round : List (Score R) → List (Score R) → RoundScores R),
    StaysWorking (do
      let inferences ← scoreInferers policy topic block given.isSome network
      let forecasts ← scoreForecasters policy topic block given.isSome network
      return round inferences forecasts : Keeping R (RoundScores R)) := fun network round =>
    ((staysWorking_lift _).bind fun _ => staysWorking_record _ _ _ _).bind fun _ =>
      ((staysWorking_lift _).bind fun _ => staysWorking_record _ _ _ _).bind fun _ =>
        staysWorking_pure _
  cases given with
  | none => exact (staysWorking_lift _).bind fun network => rest network _
  | some network => exact (staysWorking_pure network).bind fun network => rest network _

end Round

theorem working_of_scoreRound {engine : Engine R} (working : engine.keeper.outage = none)
    (topic block : Int) (submissions : List (Round.Submission R)) (given : Option (Bundle R)) :
    (engine.scoreRound topic block submissions given).2.keeper.outage = none := by
  have still := (Round.staysWorking_score engine.policy topic block submissions given).transaction
    engine.keeper working
  unfold Engine.scoreRound
  dsimp only
  split
  next ran =>
    rw [ran] at still
    exact still
  next ran =>
    rw [ran] at still
    exact still

end RoundScoring
