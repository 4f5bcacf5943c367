import RoundScoring.Proofs.Keeping

/-!
Which faults work can end with. Work is put together from pieces, and ends only with faults that one
of its pieces can end with. An outage of the keeper may strike any piece that asks the keeper, so the
faults that are allowed must include outages there.
-/

namespace RoundScoring

variable {R α β : Type} {allowed : Fault R → Prop}

def Fault.Within (allowed : Fault R → Prop) (outcome : Except (Fault R) α) : Prop :=
  ∀ fault, outcome = .error fault → allowed fault

namespace Fault

theorem within_ok (a : α) : Within allowed (.ok a) := by
  intro fault failed
  cases failed

theorem within_error {fault : Fault R} (fine : allowed fault) :
    Within allowed (.error fault : Except (Fault R) α) := by
  intro fault failed
  cases failed
  exact fine

theorem Within.bind {first : Except (Fault R) α} {next : α → Except (Fault R) β}
    (before : Within allowed first) (after : ∀ a, first = .ok a → Within allowed (next a)) :
    Within allowed (first >>= next) := by
  intro fault failed
  cases first with
  | error found =>
    cases failed
    exact before _ rfl
  | ok a => exact after a rfl fault failed

theorem within_mapM {step : α → Except (Fault R) β} (each : ∀ a, Within allowed (step a))
    (as : List α) : Within allowed (as.mapM step) := by
  induction as with
  | nil => exact within_ok []
  | cons a as ih =>
    rw [List.mapM_cons]
    exact (each a).bind fun b _ => ih.bind fun bs _ => within_ok (b :: bs)

theorem within_foldlM {step : β → α → Except (Fault R) β} (each : ∀ b a, Within allowed (step b a))
    (as : List α) (b : β) : Within allowed (as.foldlM step b) := by
  induction as generalizing b with
  | nil => exact within_ok b
  | cons a as ih =>
    rw [List.foldlM_cons]
    exact (each b a).bind fun b' _ => ih b'

end Fault

namespace Keeper

variable [Scalar R]

/-- Whatever the keeper is like, a fault is among those allowed. -/
def FailsWithin (allowed : Fault R → Prop) (work : Keeping R α) : Prop :=
  ∀ keeper : Keeper R, Fault.Within allowed (keeper.run work).1

theorem failsWithin_pure (a : α) : FailsWithin allowed (pure a : Keeping R α) :=
  fun _ => Fault.within_ok a

theorem failsWithin_throw {fault : Fault R} (fine : allowed fault) :
    FailsWithin allowed (throw fault : Keeping R α) :=
  fun _ => Fault.within_error fine

theorem failsWithin_lift {outcome : Except (Fault R) α} (fine : Fault.Within allowed outcome) :
    FailsWithin allowed (liftM outcome : Keeping R α) := by
  intro keeper
  rw [run_lift]
  exact fine

theorem failsWithin_readLedger : FailsWithin allowed (readLedger : Keeping R (Ledger R)) :=
  fun keeper => Fault.within_ok keeper.ledger

theorem failsWithin_writeLedger (change : Ledger R → Ledger R) :
    FailsWithin allowed (writeLedger change) :=
  fun _ => Fault.within_ok ()

theorem within_run_bind {keeper : Keeper R} {work : Keeping R α} {next : α → Keeping R β}
    (first : Fault.Within allowed (keeper.run work).1)
    (second : ∀ a after, keeper.run work = (.ok a, after) →
      Fault.Within allowed (after.run (next a)).1) :
    Fault.Within allowed (keeper.run (work >>= next)).1 := by
  rw [run_bind]
  split
  next a between ran => exact second a between ran
  next fault between ran =>
    rw [ran] at first
    exact Fault.within_error (first fault rfl)

theorem FailsWithin.bind {work : Keeping R α} {next : α → Keeping R β}
    (first : FailsWithin allowed work)
    (second : ∀ (keeper after : Keeper R) (a : α), keeper.run work = (.ok a, after) →
      FailsWithin allowed (next a)) : FailsWithin allowed (work >>= next) := fun keeper =>
  within_run_bind (first keeper) fun a between ran => second keeper between a ran between

theorem failsWithin_mapM {step : α → Keeping R β} (each : ∀ a, FailsWithin allowed (step a))
    (as : List α) : FailsWithin allowed (as.mapM step) := by
  induction as with
  | nil => exact failsWithin_pure []
  | cons a as ih =>
    rw [List.mapM_cons]
    exact (each a).bind fun _ _ b _ => ih.bind fun _ _ bs _ => failsWithin_pure (b :: bs)

theorem failsWithin_forM {step : α → Keeping R PUnit} {as : List α}
    (each : ∀ a ∈ as, FailsWithin allowed (step a)) : FailsWithin allowed (as.forM step) := by
  induction as with
  | nil => exact failsWithin_pure _
  | cons a as ih =>
    exact (each a List.mem_cons_self).bind fun _ _ _ _ =>
      ih fun later inside => each later (List.mem_cons_of_mem a inside)

section Asking

variable (outages : ∀ exception message, allowed (.outage exception message))

include outages

theorem failsWithin_attempt (call : Call) : FailsWithin allowed (attempt call : Keeping R Unit) := by
  intro keeper
  rw [run_attempt]
  split
  next => exact Fault.within_ok ()
  next =>
    split
    next =>
      split
      next => exact Fault.within_error (outages _ _)
      next => exact Fault.within_ok ()
    next => exact Fault.within_ok ()

theorem FailsWithin.transaction {body : Keeping R α} (fine : FailsWithin allowed body) :
    FailsWithin allowed (transaction body) := by
  refine (failsWithin_attempt outages _).bind fun _ _ _ _ keeper => ?_
  have inner := fine keeper
  rw [run_undoing]
  split
  next a after ran => exact Fault.within_ok a
  next fault after ran =>
    rw [ran] at inner
    exact Fault.within_error (inner fault rfl)

theorem failsWithin_readStake (topic : Int) (reputer : Address)
    (unknown : allowed (.unknownStake reputer topic)) :
    FailsWithin allowed (readStake topic reputer : Keeping R R) := by
  refine (failsWithin_attempt outages _).bind fun _ _ _ _ =>
    failsWithin_readLedger.bind fun _ _ ledger _ => ?_
  split
  next stake _ => exact failsWithin_pure stake
  next => exact failsWithin_throw unknown

theorem failsWithin_readCoefficient (topic : Int) (reputer : Address) :
    FailsWithin allowed (readCoefficient topic reputer : Keeping R R) :=
  (failsWithin_attempt outages _).bind fun _ _ _ _ =>
    failsWithin_readLedger.bind fun _ _ _ _ => failsWithin_pure _

theorem failsWithin_readRoster (topic : Int) (unknown : allowed (.unknownRoster topic)) :
    FailsWithin allowed (readRoster topic : Keeping R (OrderedSet Address)) := by
  refine (failsWithin_attempt outages _).bind fun _ _ _ _ =>
    failsWithin_readLedger.bind fun _ _ ledger _ => ?_
  split
  next roster _ => exact failsWithin_pure roster
  next => exact failsWithin_throw unknown

theorem failsWithin_writeCoefficient (topic : Int) (reputer : Address) {value : R}
    (nonneg : 0 ≤ value) : FailsWithin allowed (writeCoefficient topic reputer value) := by
  unfold writeCoefficient
  rw [dif_pos nonneg]
  exact (failsWithin_attempt outages _).bind fun _ _ _ _ => failsWithin_writeLedger _

theorem failsWithin_insertScore (kind : ScoreKind) (topic block : Int) (score : Score R)
    (recorded : allowed (.scoreRecorded kind score.account topic block)) :
    FailsWithin allowed (insertScore kind topic block score) := by
  refine (failsWithin_attempt outages _).bind fun _ _ _ _ =>
    failsWithin_readLedger.bind fun _ _ ledger _ => ?_
  dsimp only
  split
  next => exact failsWithin_throw recorded
  next => exact failsWithin_writeLedger _

end Asking

end Keeper
end RoundScoring
