import Mathlib.Algebra.BigOperators.Fin
import Mathlib.Analysis.Real.Sqrt
import Mathlib.Analysis.SpecialFunctions.Log.Base
import Mathlib.Analysis.SpecialFunctions.Pow.Real
import RoundScoring.Scalar

/-!
Real numbers as scalars: the rules in exact arithmetic. There every number is finite, a power never
is too large, and the comparisons that hand on values which are no numbers come down to `min`, `max`
and suprema.
-/

namespace RoundScoring

namespace Exact

noncomputable instance : Scalar ℝ where
  decidableLE := Real.decidableLE
  decidableLT := Real.decidableLT
  isFinite _ := true
  sqrt := Real.sqrt
  log10 := Real.logb 10
  powerOfTwo? x := some (2 ^ x)
  powerOfTen? x := some (10 ^ x)

end Exact

/-- What is left of its own effect to each of so many forecasters: all of it to one alone, and half as
much with each other one. -/
noncomputable def Loss.share (forecasters : ℕ) : ℝ := 1 / 2 ^ (forecasters - 1)

namespace Scalar

@[simp] theorem isLoss_iff_pos (x : ℝ) : IsLoss x ↔ 0 < x :=
  ⟨fun proper => proper.2, fun positive => ⟨rfl, positive⟩⟩

theorem log10_powerOfTen {x y : ℝ} (power : powerOfTen? x = some y) : Scalar.log10 y = x := by
  cases power
  exact Real.logb_rpow (by norm_num) (by norm_num)

@[simp] theorem larger_eq_max (x y : ℝ) : larger x y = max x y := by
  unfold larger
  by_cases ordered : x ≤ y
  · rw [if_pos ordered, max_eq_right ordered]
  · have reversed : y ≤ x := (not_le.mp ordered).le
    rw [if_neg ordered, if_pos reversed, max_eq_left reversed]

@[simp] theorem smaller_eq_min (x y : ℝ) : smaller x y = min x y := by
  unfold smaller
  by_cases ordered : x ≤ y
  · rw [if_pos ordered, min_eq_left ordered]
  · have reversed : y ≤ x := (not_le.mp ordered).le
    rw [if_neg ordered, if_pos reversed, min_eq_right reversed]

@[simp] theorem clamp_eq (low high x : ℝ) : clamp low high x = min (max x low) high := by
  simp only [clamp, larger_eq_max, smaller_eq_min]

@[simp] theorem absolute_eq_abs (x : ℝ) : absolute x = |x| := by
  unfold absolute
  by_cases negative : x < 0
  · rw [if_pos negative, abs_of_neg negative, zero_sub]
  · rw [if_neg negative, abs_of_nonneg (not_lt.mp negative)]

theorem rootMeanSquare_eq (xs : List ℝ) :
    rootMeanSquare xs = √((xs.map fun x => x ^ 2).sum / xs.length) := by
  simp only [rootMeanSquare, sq]
  rfl

theorem foldl_larger_spec (rest : List ℝ) (x : ℝ) :
    rest.foldl larger x ∈ x :: rest ∧ ∀ y ∈ x :: rest, y ≤ rest.foldl larger x := by
  induction rest generalizing x with
  | nil => simp
  | cons z rest ih =>
    obtain ⟨member, above⟩ := ih (max x z)
    rw [List.foldl_cons, larger_eq_max]
    have head : max x z ≤ rest.foldl larger (max x z) := above _ List.mem_cons_self
    constructor
    · rcases List.mem_cons.mp member with same | later
      · rcases max_choice x z with first | second
        · rw [same, first]
          exact List.mem_cons_self
        · rw [same, second]
          exact List.mem_cons_of_mem _ List.mem_cons_self
      · exact List.mem_cons_of_mem _ (List.mem_cons_of_mem _ later)
    · intro y inside
      rcases List.mem_cons.mp inside with rfl | inside
      · exact (le_max_left y z).trans head
      rcases List.mem_cons.mp inside with rfl | inside
      · exact (le_max_right x y).trans head
      · exact above y (List.mem_cons_of_mem _ inside)

theorem greatest_ofFn {n : Nat} (f : Fin n → ℝ) : greatest (List.ofFn f) = ⨆ i, f i := by
  cases n with
  | zero =>
    rw [List.ofFn_zero, greatest_nil, Real.iSup_of_isEmpty]
  | succ n =>
    rw [List.ofFn_succ, greatest_cons]
    obtain ⟨member, above⟩ := foldl_larger_spec (List.ofFn fun i => f i.succ) (f 0)
    rw [← List.ofFn_succ (f := f)] at member above
    refine le_antisymm ?_ (ciSup_le fun i => above _ (List.mem_ofFn.mpr ⟨i, rfl⟩))
    obtain ⟨i, same⟩ := List.mem_ofFn.mp member
    rw [← same]
    exact le_ciSup (Set.finite_range f).bddAbove i

end Scalar
end RoundScoring
