import RoundScoring.Keeper.Lemmas

/-!
Two kinds of work on a keeper. Some work keeps the ledger whatever happens; some keeps it at least
when it fails. Reading is of the first kind and a transaction of the second, and a round is put
together from these two: what only reads may stand before all-or-nothing work, and what cannot fail
behind it.
-/

namespace RoundScoring.Keeper

variable {R : Type} [Scalar R] {α β : Type}

theorem run_bind_eq_ok_iff {keeper after : Keeper R} {work : Keeping R α} {next : α → Keeping R β}
    {b : β} :
    keeper.run (work >>= next) = (.ok b, after) ↔
      ∃ a between, keeper.run work = (.ok a, between) ∧ between.run (next a) = (.ok b, after) := by
  rw [run_bind]
  split
  next a between found =>
    constructor
    · intro rest
      exact ⟨a, between, found, rest⟩
    · rintro ⟨a', between', found', rest⟩
      rw [found] at found'
      cases found'
      exact rest
  next fault between found =>
    constructor
    · intro wrong
      cases wrong
    · rintro ⟨a', between', found', -⟩
      rw [found] at found'
      cases found'

theorem run_lift_bind_eq_ok_iff {keeper after : Keeper R} {outcome : Except (Fault R) α}
    {next : α → Keeping R β} {b : β} :
    keeper.run (liftM outcome >>= next) = (.ok b, after) ↔
      ∃ a, outcome = .ok a ∧ keeper.run (next a) = (.ok b, after) := by
  rw [run_bind_eq_ok_iff, run_lift]
  simp only [Prod.mk.injEq]
  constructor
  · rintro ⟨a, _, ⟨found, rfl⟩, rest⟩
    exact ⟨a, found, rest⟩
  · rintro ⟨a, found, rest⟩
    exact ⟨a, keeper, ⟨found, rfl⟩, rest⟩

/-- The ledger is the same afterwards, whether the work returns or fails. -/
def KeepsLedger (work : Keeping R α) : Prop :=
  ∀ keeper : Keeper R, (keeper.run work).2.ledger = keeper.ledger

/-- The ledger is the same afterwards when the work fails. -/
def AllOrNothing (work : Keeping R α) : Prop :=
  ∀ (keeper after : Keeper R) (fault : Fault R),
    keeper.run work = (.error fault, after) → after.ledger = keeper.ledger

theorem KeepsLedger.of_run {work : Keeping R α} (kept : KeepsLedger work) {keeper after : Keeper R}
    {outcome : Except (Fault R) α} (ran : keeper.run work = (outcome, after)) :
    after.ledger = keeper.ledger := by
  have same := kept keeper
  rwa [ran] at same

theorem KeepsLedger.allOrNothing {work : Keeping R α} (kept : KeepsLedger work) :
    AllOrNothing work :=
  fun _ _ _ ran => kept.of_run ran

theorem keepsLedger_pure (a : α) : KeepsLedger (pure a : Keeping R α) := fun _ => rfl

theorem keepsLedger_throw (fault : Fault R) : KeepsLedger (throw fault : Keeping R α) := fun _ => rfl

theorem keepsLedger_lift (outcome : Except (Fault R) α) :
    KeepsLedger (liftM outcome : Keeping R α) := by
  intro keeper
  rw [run_lift]

theorem keepsLedger_readLedger : KeepsLedger (readLedger : Keeping R (Ledger R)) := fun _ => rfl

theorem keepsLedger_attempt (call : Call) : KeepsLedger (attempt call : Keeping R Unit) :=
  fun keeper => ledger_run_attempt keeper call

theorem KeepsLedger.bind {work : Keeping R α} {next : α → Keeping R β} (first : KeepsLedger work)
    (second : ∀ a, KeepsLedger (next a)) : KeepsLedger (work >>= next) := by
  intro keeper
  rw [run_bind]
  split
  next a between ran => exact (second a between).trans (first.of_run ran)
  next fault between ran => exact first.of_run ran

theorem keepsLedger_mapM {next : α → Keeping R β} (kept : ∀ a, KeepsLedger (next a)) (as : List α) :
    KeepsLedger (as.mapM next) := by
  induction as with
  | nil => exact keepsLedger_pure []
  | cons a as ih =>
    rw [List.mapM_cons]
    exact (kept a).bind fun b => ih.bind fun bs => keepsLedger_pure (b :: bs)

theorem keepsLedger_readStake (topic : Int) (reputer : Address) :
    KeepsLedger (readStake topic reputer : Keeping R R) := by
  refine (keepsLedger_attempt _).bind fun _ => keepsLedger_readLedger.bind fun ledger => ?_
  split
  next stake _ => exact keepsLedger_pure stake
  next => exact keepsLedger_throw _

theorem keepsLedger_readCoefficient (topic : Int) (reputer : Address) :
    KeepsLedger (readCoefficient topic reputer : Keeping R R) :=
  (keepsLedger_attempt _).bind fun _ => keepsLedger_readLedger.bind fun _ => keepsLedger_pure _

theorem keepsLedger_readRoster (topic : Int) :
    KeepsLedger (readRoster topic : Keeping R (OrderedSet Address)) := by
  refine (keepsLedger_attempt _).bind fun _ => keepsLedger_readLedger.bind fun ledger => ?_
  split
  next roster _ => exact keepsLedger_pure roster
  next => exact keepsLedger_throw _

theorem allOrNothing_transaction (body : Keeping R α) : AllOrNothing (transaction body) := by
  intro keeper after fault ran
  have undone := ledger_run_transaction_of_error (congrArg Prod.fst ran)
  rwa [ran] at undone

theorem KeepsLedger.bind_allOrNothing {work : Keeping R α} {next : α → Keeping R β}
    (first : KeepsLedger work) (second : ∀ a, AllOrNothing (next a)) :
    AllOrNothing (work >>= next) := by
  intro keeper after fault ran
  rw [run_bind] at ran
  split at ran
  next a between found => exact (second a between after fault ran).trans (first.of_run found)
  next fault' between found =>
    cases ran
    exact first.of_run found

theorem AllOrNothing.bind_pure {work : Keeping R α} (whole : AllOrNothing work) (pack : α → β) :
    AllOrNothing (work >>= fun a => pure (pack a)) := by
  intro keeper after fault ran
  rw [run_bind] at ran
  split at ran
  next a between _ => simp at ran
  next fault' between found =>
    cases ran
    exact whole keeper after _ found

theorem run_transaction_eq_ok_iff {keeper after : Keeper R} {body : Keeping R α} {a : α} :
    keeper.run (transaction body) = (.ok a, after) ↔
      ∃ opened, keeper.run (attempt .openTransaction) = (.ok (), opened) ∧
        opened.run body = (.ok a, after) := by
  constructor
  · intro ran
    obtain ⟨_, opened, opens, rest⟩ := run_bind_eq_ok_iff.mp ran
    refine ⟨opened, opens, ?_⟩
    rw [run_undoing] at rest
    split at rest
    next found => rw [found, ← rest]
    next => cases rest
  · rintro ⟨opened, opens, done⟩
    exact run_transaction_of_ok opens done

theorem run_transaction_eq_ok {keeper after : Keeper R} {body : Keeping R α} {a : α}
    (ran : keeper.run (transaction body) = (.ok a, after)) :
    ∃ opened : Keeper R, opened.ledger = keeper.ledger ∧ opened.run body = (.ok a, after) := by
  obtain ⟨opened, opens, done⟩ := run_transaction_eq_ok_iff.mp ran
  exact ⟨opened, (keepsLedger_attempt _).of_run opens, done⟩

theorem run_readStake_eq_ok {keeper after : Keeper R} {topic : Int} {reputer : Address} {stake : R}
    (ran : keeper.run (readStake topic reputer) = (.ok stake, after)) :
    keeper.ledger.stakes.get? (topic, reputer) = some stake := by
  obtain ⟨_, asked, asks, rest⟩ := run_bind_eq_ok_iff.mp ran
  have same := (keepsLedger_attempt _).of_run asks
  obtain ⟨_, _, reads, rest⟩ := run_bind_eq_ok_iff.mp rest
  cases reads
  split at rest
  next found =>
    cases rest
    rw [← same]
    exact found
  next => cases rest

theorem run_readCoefficient_eq_ok {keeper after : Keeper R} {topic : Int} {reputer : Address}
    {value : R} (ran : keeper.run (readCoefficient topic reputer) = (.ok value, after)) :
    value = keeper.ledger.coefficient topic reputer := by
  obtain ⟨_, asked, asks, rest⟩ := run_bind_eq_ok_iff.mp ran
  have same := (keepsLedger_attempt _).of_run asks
  obtain ⟨_, _, reads, rest⟩ := run_bind_eq_ok_iff.mp rest
  cases reads
  cases rest
  rw [same]

theorem run_readRoster_eq_ok {keeper after : Keeper R} {topic : Int} {roster : OrderedSet Address}
    (ran : keeper.run (readRoster topic) = (.ok roster, after)) :
    keeper.ledger.rosters.get? topic = some roster := by
  obtain ⟨_, asked, asks, rest⟩ := run_bind_eq_ok_iff.mp ran
  have same := (keepsLedger_attempt _).of_run asks
  obtain ⟨_, _, reads, rest⟩ := run_bind_eq_ok_iff.mp rest
  cases reads
  split at rest
  next found =>
    cases rest
    rw [← same]
    exact found
  next => cases rest

theorem run_writeCoefficient_eq_ok {keeper after : Keeper R} {topic : Int} {reputer : Address}
    {value : R} (ran : keeper.run (writeCoefficient topic reputer value) = (.ok (), after)) :
    ∃ nonneg : 0 ≤ value, after.ledger = { keeper.ledger with
      coefficients := keeper.ledger.coefficients.put (topic, reputer) ⟨value, nonneg⟩ } := by
  unfold writeCoefficient at ran
  split at ran
  next nonneg =>
    obtain ⟨_, asked, asks, rest⟩ := run_bind_eq_ok_iff.mp ran
    have same := (keepsLedger_attempt _).of_run asks
    rw [run_writeLedger] at rest
    cases rest
    exact ⟨nonneg, by rw [same]⟩
  next => cases ran

theorem run_insertScore_eq_ok {keeper after : Keeper R} {kind : ScoreKind} {topic block : Int}
    {score : Score R} (ran : keeper.run (insertScore kind topic block score) = (.ok (), after)) :
    (⟨topic, block, score.account⟩ : ScoreKey) ∉ (keeper.ledger.scores kind).keys ∧
      after.ledger = keeper.ledger.withScores kind
        ((keeper.ledger.scores kind).put ⟨topic, block, score.account⟩ score) := by
  obtain ⟨_, asked, asks, rest⟩ := run_bind_eq_ok_iff.mp ran
  have same := (keepsLedger_attempt _).of_run asks
  obtain ⟨_, _, reads, rest⟩ := run_bind_eq_ok_iff.mp rest
  cases reads
  dsimp only at rest
  split at rest
  next => cases rest
  next absent =>
    rw [run_writeLedger] at rest
    cases rest
    rw [same] at absent ⊢
    exact ⟨absent, rfl⟩

end RoundScoring.Keeper
