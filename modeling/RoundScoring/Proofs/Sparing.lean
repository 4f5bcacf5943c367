import RoundScoring.Proofs.Keeping
import RoundScoring.Round.Reputers

/-!
Work that does not mind being left out. Reading writes nothing, so the only thing that one read takes
from the next is what an outage would have let through. A keeper that lets calls through at least as
often as another, over the same ledger, returns whatever the other returns (`Sparing`), and so do reads
in a row when some of them are left out (`Milder.run_mapM_filter`).
-/

namespace RoundScoring

namespace Keeper

variable {R : Type} [Scalar R] {α β : Type} {strict mild after : Keeper R}

/-- The other keeper has the same ledger and lets calls through at least as often. -/
structure Milder (strict mild : Keeper R) : Prop where
  ledger : mild.ledger = strict.ledger
  outage : mild.outage = none ∨ ∃ outage spared, strict.outage = some outage ∧
    mild.outage = some { outage with spared } ∧ outage.spared ≤ spared

theorem Milder.refl (keeper : Keeper R) : keeper.Milder keeper where
  ledger := rfl
  outage := by
    cases out : keeper.outage with
    | none => exact .inl rfl
    | some outage => exact .inr ⟨outage, outage.spared, rfl, rfl, Nat.le_refl _⟩

/-- Where the work returns, a milder keeper is still milder, whether it is spared the work or does it;
and it returns the same. -/
def Sparing (work : Keeping R α) : Prop :=
  ∀ (strict mild after : Keeper R) (a : α), strict.Milder mild → strict.run work = (.ok a, after) →
    after.Milder mild ∧ ∃ after', mild.run work = (.ok a, after') ∧ after.Milder after'

theorem sparing_pure (a : α) : Sparing (pure a : Keeping R α) := by
  intro strict mild after a milder ran
  cases ran
  exact ⟨milder, mild, rfl, milder⟩

theorem sparing_throw (fault : Fault R) : Sparing (throw fault : Keeping R α) := by
  intro strict mild after a milder ran
  cases ran

theorem sparing_lift (outcome : Except (Fault R) α) : Sparing (liftM outcome : Keeping R α) := by
  intro strict mild after a milder ran
  rw [run_lift] at ran
  cases ran
  exact ⟨milder, mild, by rw [run_lift], milder⟩

theorem sparing_readLedger : Sparing (readLedger : Keeping R (Ledger R)) := by
  intro strict mild after ledger milder ran
  cases ran
  exact ⟨milder, mild, by rw [run_readLedger, milder.ledger], milder⟩

theorem sparing_attempt (call : Call) : Sparing (attempt call : Keeping R Unit) := by
  rintro strict mild after ⟨⟩ ⟨ledger, lenient⟩ ran
  have same : after.ledger = strict.ledger := (keepsLedger_attempt _).of_run ran
  rcases lenient with working | ⟨outage, spared, out, out', most⟩
  · exact ⟨⟨ledger.trans same.symm, .inl working⟩, mild, run_attempt_of_none working call,
      ledger.trans same.symm, .inl working⟩
  · rw [run_attempt, out] at ran
    rw [run_attempt, out']
    by_cases kind : outage.call = call
    · simp only [if_pos kind] at ran ⊢
      cases left : outage.spared with
      | zero =>
        rw [left] at ran
        cases ran
      | succ fewer =>
        obtain ⟨more, rfl⟩ : ∃ more, spared = more + 1 := ⟨spared - 1, by omega⟩
        rw [left] at ran
        cases ran
        exact ⟨⟨ledger, .inr ⟨_, _, rfl, out', by simp only; omega⟩⟩, _, rfl, ledger,
          .inr ⟨_, _, rfl, rfl, by simp only; omega⟩⟩
    · simp only [if_neg kind] at ran ⊢
      cases ran
      exact ⟨⟨ledger, .inr ⟨_, _, out, out', most⟩⟩, _, rfl, ledger, .inr ⟨_, _, out, out', most⟩⟩

theorem Sparing.bind {work : Keeping R α} {next : α → Keeping R β} (first : Sparing work)
    (second : ∀ a, Sparing (next a)) : Sparing (work >>= next) := by
  intro strict mild after b milder ran
  obtain ⟨a, between, done, rest⟩ := run_bind_eq_ok_iff.mp ran
  obtain ⟨skipped, between', done', still⟩ := first _ _ _ _ milder done
  obtain ⟨-, after', rest', milder'⟩ := second a _ _ _ _ still rest
  exact ⟨(second a _ _ _ _ skipped rest).1, after',
    run_bind_eq_ok_iff.mpr ⟨a, between', done', rest'⟩, milder'⟩

theorem sparing_readStake (topic : Int) (reputer : Address) :
    Sparing (readStake topic reputer : Keeping R R) := by
  refine (sparing_attempt _).bind fun _ => sparing_readLedger.bind fun ledger => ?_
  split
  next stake _ => exact sparing_pure stake
  next => exact sparing_throw _

theorem sparing_readCoefficient (topic : Int) (reputer : Address) :
    Sparing (readCoefficient topic reputer : Keeping R R) :=
  (sparing_attempt _).bind fun _ => sparing_readLedger.bind fun _ => sparing_pure _

theorem Milder.run_mapM_filter {step : α → Keeping R β} {as : List α} {bs : List β}
    (milder : strict.Milder mild) (ran : strict.run (as.mapM step) = (.ok bs, after))
    (sparing : ∀ a, Sparing (step a)) {keeps : α → Bool} {kept : β → Bool}
    (agree : ∀ (a : α) (b : β) (asked left : Keeper R),
      asked.run (step a) = (.ok b, left) → kept b = keeps a) :
    ∃ after', mild.run ((as.filter keeps).mapM step) = (.ok (bs.filter kept), after') ∧
      after.Milder after' := by
  -- An element that is left out is spared, and one that stays is done. Which results stay is seen from
  -- the results.
  induction as generalizing bs strict mild with
  | nil =>
    rw [List.mapM_nil] at ran
    cases ran
    exact ⟨mild, rfl, milder⟩
  | cons a as ih =>
    rw [List.mapM_cons] at ran
    obtain ⟨b, between, first, rest⟩ := run_bind_eq_ok_iff.mp ran
    obtain ⟨later, _, others, packed⟩ := run_bind_eq_ok_iff.mp rest
    cases packed
    obtain ⟨spared, between', first', still⟩ := sparing a _ _ _ _ milder first
    have same := agree a b _ _ first
    cases stays : keeps a with
    | true =>
      obtain ⟨after', others', milder'⟩ := ih still others
      rw [List.filter_cons_of_pos stays, List.filter_cons_of_pos (same.trans stays), List.mapM_cons]
      exact ⟨after', run_bind_eq_ok_iff.mpr
        ⟨b, between', first', run_bind_eq_ok_iff.mpr ⟨_, after', others', rfl⟩⟩, milder'⟩
    | false =>
      rw [List.filter_cons_of_neg (by simp [stays]), List.filter_cons_of_neg (by simp [same, stays])]
      exact ih spared others

end Keeper

open Keeper

theorem Round.sparing_readReport {R : Type} [Scalar R] (policy : Policy R) (topic : Int)
    (roster : OrderedSet Address) (reputer : Address) (bundle : Bundle R) :
    Sparing (readReport policy topic roster reputer bundle) :=
  (sparing_readStake _ _).bind fun _ => (sparing_readCoefficient _ _).bind fun _ =>
    (sparing_lift _).bind fun _ => sparing_pure _

end RoundScoring
