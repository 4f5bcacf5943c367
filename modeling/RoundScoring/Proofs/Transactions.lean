import RoundScoring.Proofs.Rounds.Replaying

/-!
What nested transactions come to. A keeper undoes a transaction by putting back the tables it began
with. Read without tables, a program is a journal: a transaction that ends well hands on what was
written in it to the one around it, and one that fails hands on nothing (`Program.contribution`).
Main statement: both readings are one (`transactions_contribute_in_full_or_not`), so what an inner
transaction wrote is undone with the outer one, and what the outer one wrote before an inner failure
that is caught stays.
-/

namespace RoundScoring

variable {R : Type} [Scalar R]

inductive Write (R : Type) [Scalar R] where
  | stake (topic : Int) (reputer : Address) (stake : R)
  | roster (topic : Int) (workers : OrderedSet Address)
  | coefficient (topic : Int) (reputer : Address) (coefficient : Coefficient R)
  | score (kind : ScoreKind) (topic block : Int) (score : Score R)

namespace Write

def work : Write R → Keeping R Unit
  | .stake topic reputer amount => Keeper.setStake topic reputer amount
  | .roster topic workers => Keeper.setRoster topic workers
  | .coefficient topic reputer given => Keeper.writeCoefficient topic reputer given.value
  | .score kind topic block given => Keeper.insertScore kind topic block given

/-- Why the tables do not take a write: only a score that is there already is refused. -/
def refusal? (ledger : Ledger R) : Write R → Option (Fault R)
  | .score kind topic block given =>
      if (⟨topic, block, given.account⟩ : ScoreKey) ∈ (ledger.scores kind).keys then
        some (.scoreRecorded kind given.account topic block)
      else none
  | _ => none

def applied (ledger : Ledger R) : Write R → Ledger R
  | .stake topic reputer amount =>
      { ledger with stakes := ledger.stakes.put (topic, reputer) amount }
  | .roster topic workers => { ledger with rosters := ledger.rosters.put topic workers }
  | .coefficient topic reputer given =>
      { ledger with coefficients := ledger.coefficients.put (topic, reputer) given }
  | .score kind topic block given =>
      ledger.withScores kind ((ledger.scores kind).put ⟨topic, block, given.account⟩ given)

theorem run_work (ledger : Ledger R) (write : Write R) :
    ({ ledger } : Keeper R).run write.work =
      match write.refusal? ledger with
      | some fault => (.error fault, { ledger })
      | none => (.ok (), { ledger := write.applied ledger }) := by
  cases write with
  | stake topic reputer amount => rfl
  | roster topic workers => rfl
  | coefficient topic reputer given =>
    rw [work, Keeper.writeCoefficient, dif_pos given.nonneg]
    rfl
  | score kind topic block given =>
    rw [work, refusal?]
    by_cases recorded : (⟨topic, block, given.account⟩ : ScoreKey) ∈ (ledger.scores kind).keys
    · rw [if_pos recorded]
      exact Keeper.run_insertScore_of_recorded rfl recorded
    · rw [if_neg recorded]
      exact Keeper.run_insertScore_of_absent (Keeper.run_attempt_of_none rfl _) recorded

end Write

def Ledger.written (ledger : Ledger R) (writes : List (Write R)) : Ledger R :=
  writes.foldl Write.applied ledger

theorem Ledger.written_append (ledger : Ledger R) (earlier later : List (Write R)) :
    ledger.written (earlier ++ later) = (ledger.written earlier).written later :=
  List.foldl_append

/-- What may be done to the tables. A handler is given the fault that it catches, and may go on in any
way, or fail in its turn. -/
inductive Program (R : Type) [Scalar R] where
  | done
  | write (one : Write R)
  | raise (fault : Fault R)
  | andThen (first second : Program R)
  | transaction (body : Program R)
  | handle (body : Program R) (handler : Fault R → Program R)

namespace Program

def work : Program R → Keeping R Unit
  | .done => pure ()
  | .write one => one.work
  | .raise fault => throw fault
  | .andThen first second => do
      first.work
      second.work
  | .transaction body => Keeper.transaction body.work
  | .handle body handler => tryCatch body.work fun fault => (handler fault).work

/-- What a program contributes to the transaction it stands in, and how it ends. Whether the tables
take a write depends on what has been contributed before. -/
def contribution (ledger : Ledger R) :
    Program R → (earlier : List (Write R)) → List (Write R) × Except (Fault R) Unit
  | .done, _ => ([], .ok ())
  | .write one, earlier =>
      match one.refusal? (ledger.written earlier) with
      | some fault => ([], .error fault)
      | none => ([one], .ok ())
  | .raise fault, _ => ([], .error fault)
  | .andThen first second, earlier =>
      match first.contribution ledger earlier with
      | (writes, .error fault) => (writes, .error fault)
      | (writes, .ok ()) =>
          let (later, outcome) := second.contribution ledger (earlier ++ writes)
          (writes ++ later, outcome)
  | .transaction body, earlier =>
      match body.contribution ledger earlier with
      | (_, .error fault) => ([], .error fault)
      | (writes, .ok ()) => (writes, .ok ())
  | .handle body handler, earlier =>
      match body.contribution ledger earlier with
      | (writes, .error fault) =>
          let (later, outcome) := (handler fault).contribution ledger (earlier ++ writes)
          (writes ++ later, outcome)
      | (writes, .ok ()) => (writes, .ok ())

end Program

namespace Keeper

variable {α : Type}

theorem run_tryCatch (keeper : Keeper R) (work : Keeping R α) (handler : Fault R → Keeping R α) :
    keeper.run (tryCatch work handler) =
      match keeper.run work with
      | (.ok a, after) => (.ok a, after)
      | (.error fault, after) => after.run (handler fault) := by
  unfold run ExceptT.run StateT.run
  simp only [tryCatch, tryCatchThe, MonadExceptOf.tryCatch, ExceptT.tryCatch, ExceptT.mk, bind,
    StateT.bind]
  obtain ⟨outcome, after⟩ := work keeper
  cases outcome <;> rfl

end Keeper

namespace Program

theorem run_work_after (ledger : Ledger R) (program : Program R) (earlier : List (Write R)) :
    ({ ledger := ledger.written earlier } : Keeper R).run program.work =
      ((program.contribution ledger earlier).2,
        { ledger := ledger.written (earlier ++ (program.contribution ledger earlier).1) }) := by
  -- A transaction that fails puts back just the tables with what was contributed before it.
  induction program generalizing earlier with
  | done =>
    rw [work, contribution, List.append_nil]
    rfl
  | write one =>
    rw [work, contribution, Write.run_work]
    cases one.refusal? (ledger.written earlier) with
    | some fault =>
      dsimp only
      rw [List.append_nil]
    | none =>
      dsimp only
      rw [Ledger.written_append]
      rfl
  | raise fault =>
    rw [work, contribution, List.append_nil]
    rfl
  | andThen first second ihFirst ihSecond =>
    rw [work, contribution, Keeper.run_bind, ihFirst]
    obtain ⟨writes, outcome | _⟩ := first.contribution ledger earlier
    · rfl
    · dsimp only
      rw [ihSecond, List.append_assoc]
  | transaction body ih =>
    rw [work, contribution]
    have ran := ih earlier
    generalize body.contribution ledger earlier = ended at ran ⊢
    obtain ⟨writes, fault | _⟩ := ended
    · rw [Keeper.run_transaction_error_of_working rfl ran]
      dsimp only
      rw [List.append_nil]
    · exact Keeper.run_transaction_of_working rfl ran
  | handle body handler ih ihHandler =>
    rw [work, contribution, Keeper.run_tryCatch, ih]
    obtain ⟨writes, fault | _⟩ := body.contribution ledger earlier
    · dsimp only
      rw [ihHandler, List.append_assoc]
    · rfl

theorem run_work (ledger : Ledger R) (program : Program R) :
    ({ ledger } : Keeper R).run program.work =
      ((program.contribution ledger []).2,
        { ledger := ledger.written (program.contribution ledger []).1 }) :=
  program.run_work_after ledger []

theorem run_work_congr {ledger : Ledger R} {program other : Program R}
    (same : program.contribution ledger [] = other.contribution ledger []) :
    ({ ledger } : Keeper R).run program.work = ({ ledger } : Keeper R).run other.work := by
  rw [run_work, run_work, same]

theorem contribution_andThen_raise (ledger : Ledger R) (body : Program R) (fault : Fault R)
    (earlier : List (Write R)) :
    ∃ stopped, ((body.andThen (.raise fault)).contribution ledger earlier).2 = .error stopped := by
  rw [contribution]
  obtain ⟨writes, first | _⟩ := body.contribution ledger earlier
  · exact ⟨first, rfl⟩
  · exact ⟨fault, rfl⟩

theorem contribution_transaction_of_error {ledger : Ledger R} {body : Program R}
    {earlier : List (Write R)} {fault : Fault R}
    (failed : (body.contribution ledger earlier).2 = .error fault) :
    (transaction body).contribution ledger earlier = ([], .error fault) := by
  rw [contribution]
  generalize body.contribution ledger earlier = ended at failed ⊢
  obtain ⟨writes, outcome⟩ := ended
  cases failed
  rfl

theorem contribution_handle_stopped (ledger : Ledger R) (inner rest : Program R) (fault : Fault R)
    (earlier : List (Write R)) :
    (handle (transaction (inner.andThen (.raise fault))) fun _ => rest).contribution ledger earlier =
      rest.contribution ledger earlier := by
  obtain ⟨stopped, failed⟩ := contribution_andThen_raise ledger inner fault earlier
  rw [contribution, contribution_transaction_of_error failed]
  dsimp only
  rw [List.append_nil, List.nil_append]

end Program

/-- On the tables, in the order of their rows, and in its outcome every program comes to what it
contributes as a journal. So a transaction that ended well is undone with one around it that fails,
and what was done before a failed transaction that is caught stays, as does what is done next. -/
theorem transactions_contribute_in_full_or_not (ledger : Ledger R) :
    (∀ program : Program R,
      ({ ledger } : Keeper R).run program.work =
        ((program.contribution ledger []).2,
          { ledger := ledger.written (program.contribution ledger []).1 })) ∧
    (∀ (inner : Program R) (fault : Fault R),
      (({ ledger } : Keeper R).run
        (Program.transaction ((Program.transaction inner).andThen (.raise fault))).work).2 =
          { ledger }) ∧
    ∀ (outer inner rest : Program R) (fault : Fault R),
      ({ ledger } : Keeper R).run
        (outer.andThen (.handle (.transaction (inner.andThen (.raise fault))) fun _ => rest)).work =
      ({ ledger } : Keeper R).run (outer.andThen rest).work := by
  refine ⟨Program.run_work ledger, fun inner fault => ?_, fun outer inner rest fault => ?_⟩
  · obtain ⟨stopped, failed⟩ :=
      Program.contribution_andThen_raise ledger (.transaction inner) fault []
    rw [Program.run_work, Program.contribution_transaction_of_error failed]
    rfl
  · refine Program.run_work_congr ?_
    rw [Program.contribution, Program.contribution]
    simp only [Program.contribution_handle_stopped]

/-- A score that comes twice ends a transaction, and what an inner one has handed on is gone too. -/
example :
    let score : Score Float := ⟨1, 10, "reputer", 1⟩
    let twice := Program.write (.score .reputer 1 10 score)
    let inner := Program.transaction (.write (.score .inference 1 10 score))
    (Program.transaction (twice.andThen (inner.andThen twice))).contribution {} [] =
      ([], .error (.scoreRecorded .reputer "reputer" 1 10)) := by
  rfl

end RoundScoring
