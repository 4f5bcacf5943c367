import RoundScoring.Keeper

/-!
How work on a keeper composes, and what each call does to the ledger. Main statements: a transaction
that fails leaves the ledger as it was (`ledger_run_transaction_of_error`), and asking the keeper
never touches the ledger (`ledger_run_attempt`).
-/

namespace RoundScoring.Keeper

variable {R : Type} [Scalar R] {α β : Type}

@[simp] theorem run_pure (keeper : Keeper R) (a : α) :
    keeper.run (pure a) = (.ok a, keeper) := rfl

@[simp] theorem run_throw (keeper : Keeper R) (fault : Fault R) :
    keeper.run (throw fault : Keeping R α) = (.error fault, keeper) := rfl

@[simp] theorem run_lift (keeper : Keeper R) (outcome : Except (Fault R) α) :
    keeper.run (liftM outcome : Keeping R α) = (outcome, keeper) := by
  cases outcome <;> rfl

theorem run_bind (keeper : Keeper R) (work : Keeping R α) (next : α → Keeping R β) :
    keeper.run (work >>= next) =
      match keeper.run work with
      | (.ok a, after) => after.run (next a)
      | (.error fault, after) => (.error fault, after) := by
  change (ExceptT.bindCont next (keeper.run work).1 : StateM (Keeper R) _) (keeper.run work).2 = _
  split
  next found => rw [found]; rfl
  next found => rw [found]; rfl

@[simp] theorem run_readLedger (keeper : Keeper R) :
    keeper.run readLedger = (.ok keeper.ledger, keeper) := rfl

@[simp] theorem run_writeLedger (keeper : Keeper R) (change : Ledger R → Ledger R) :
    keeper.run (writeLedger change) =
      (.ok (), { keeper with ledger := change keeper.ledger }) := rfl

theorem run_attempt (keeper : Keeper R) (call : Call) :
    keeper.run (attempt call) =
      match keeper.outage with
      | none => (.ok (), keeper)
      | some outage =>
          if outage.call = call then
            match outage.spared with
            | 0 => (.error outage.fault, keeper)
            | spared + 1 => (.ok (), { keeper with outage := some { outage with spared } })
          else (.ok (), keeper) := rfl

theorem ledger_run_attempt (keeper : Keeper R) (call : Call) :
    (keeper.run (attempt call)).2.ledger = keeper.ledger := by
  rw [run_attempt]
  split
  next => rfl
  next =>
    split
    next => split <;> rfl
    next => rfl

theorem run_attempt_of_none {keeper : Keeper R} (working : keeper.outage = none) (call : Call) :
    keeper.run (attempt call) = (.ok (), keeper) := by
  rw [run_attempt, working]

theorem run_undoing (keeper : Keeper R) (body : Keeping R α) :
    keeper.run (undoing body) =
      match keeper.run body with
      | (.ok a, after) => (.ok a, after)
      | (.error fault, after) => (.error fault, { after with ledger := keeper.ledger }) := rfl

theorem ledger_run_undoing_of_error {keeper : Keeper R} {body : Keeping R α} {fault : Fault R}
    (failed : (keeper.run (undoing body)).1 = .error fault) :
    (keeper.run (undoing body)).2.ledger = keeper.ledger := by
  rw [run_undoing] at failed ⊢
  split at failed
  next => simp at failed
  next => rfl

theorem ledger_run_transaction_of_error {keeper : Keeper R} {body : Keeping R α} {fault : Fault R}
    (failed : (keeper.run (transaction body)).1 = .error fault) :
    (keeper.run (transaction body)).2.ledger = keeper.ledger := by
  have same := ledger_run_attempt keeper .openTransaction
  unfold transaction at failed ⊢
  rw [run_bind] at failed ⊢
  generalize keeper.run (attempt .openTransaction) = opening at failed same ⊢
  obtain ⟨outcome, opened⟩ := opening
  cases outcome with
  | error => exact same
  | ok => exact (ledger_run_undoing_of_error failed).trans same

theorem run_transaction_of_ok {keeper opened after : Keeper R} {body : Keeping R α} {a : α}
    (opens : keeper.run (attempt .openTransaction) = (.ok (), opened))
    (done : opened.run body = (.ok a, after)) :
    keeper.run (transaction body) = (.ok a, after) := by
  unfold transaction
  rw [run_bind, opens]
  simp [run_undoing, done]

theorem run_readStake (keeper : Keeper R) (topic : Int) (reputer : Address) :
    keeper.run (readStake topic reputer) =
      match keeper.run (attempt .readStake) with
      | (.error fault, asked) => (.error fault, asked)
      | (.ok _, asked) =>
          match asked.ledger.stakes.get? (topic, reputer) with
          | some stake => (.ok stake, asked)
          | none => (.error (.unknownStake reputer topic), asked) := by
  unfold readStake
  rw [run_bind]
  split
  next found =>
    rw [found]
    simp only [run_bind, run_readLedger]
    split <;> simp_all
  next found => rw [found]

theorem run_insertScore_of_absent {keeper asked : Keeper R} {kind : ScoreKind} {topic block : Int}
    {score : Score R} (opens : keeper.run (attempt (.insertScore kind)) = (.ok (), asked))
    (absent : (⟨topic, block, score.account⟩ : ScoreKey) ∉ (asked.ledger.scores kind).keys) :
    keeper.run (insertScore kind topic block score) =
      (.ok (), { asked with
        ledger := asked.ledger.withScores kind
          ((asked.ledger.scores kind).put ⟨topic, block, score.account⟩ score) }) := by
  unfold insertScore
  rw [run_bind, opens]
  simp only [run_bind, run_readLedger, absent, if_false]
  rfl

end RoundScoring.Keeper
