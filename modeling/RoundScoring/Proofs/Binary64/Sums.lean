import Mathlib.Algebra.BigOperators.Ring.List
import Mathlib.Algebra.Order.BigOperators.Group.List
import Mathlib.Algebra.Order.Ring.Pow
import RoundScoring.Proofs.Binary64.Nearest

/-!
Sums and weighted means that are rounded at every step. Each step changes what it returns by little of
itself, so a sum of many numbers is off by little as long as there are not too many of them, and a
mean lies not far outside the range of what it is the mean of.
-/

namespace RoundScoring.Binary64

/-- A sum from the right that is rounded after every addition. -/
noncomputable def sumNearest : List ℝ → ℝ
  | [] => 0
  | x :: xs => nearest (x + sumNearest xs)

theorem sumNearest_neg (xs : List ℝ) : sumNearest (xs.map fun x => -x) = -sumNearest xs := by
  induction xs with
  | nil => exact neg_zero.symm
  | cons x xs ih =>
    change nearest (-x + sumNearest (xs.map fun x => -x)) = -nearest (x + sumNearest xs)
    rw [ih, ← neg_add, nearest_neg]

theorem sumNearest_nonneg {xs : List ℝ} (nonneg : ∀ x ∈ xs, 0 ≤ x) : 0 ≤ sumNearest xs := by
  induction xs with
  | nil => exact le_rfl
  | cons x xs ih =>
    obtain ⟨head, tail⟩ := List.forall_mem_cons.mp nonneg
    exact nearest_nonneg (add_nonneg head (ih tail))

theorem onGrid_sumNearest (xs : List ℝ) : OnGrid (sumNearest xs) := by
  cases xs with
  | nil => exact ⟨0, 0, by norm_num, by norm_num, by simp [sumNearest]⟩
  | cons x xs => exact onGrid_nearest _

theorem OnGrid.exists_whole {x : ℝ} (grid : OnGrid x) : ∃ k : ℤ, x = k * 2 ^ (-1074 : ℤ) := by
  obtain ⟨k, e, -, least, rfl⟩ := grid
  refine ⟨k * 2 ^ (e + 1074).toNat, ?_⟩
  push_cast
  rw [← zpow_natCast, Int.toNat_of_nonneg (by omega), mul_assoc, ← zpow_add₀ two_ne_zero]
  congr 2
  ring

/-- By this factor at most a step changes its result. -/
noncomputable def roundoff : ℝ := ((2 : ℕ) : ℝ) ^ (-53 : ℤ)

theorem roundoff_def : roundoff = 2 ^ (-53 : ℤ) := rfl

theorem roundoff_eq_div : roundoff = 1 / 2 ^ 53 := by
  rw [roundoff_def]
  norm_num [zpow_neg]

theorem roundoff_pos : 0 < roundoff := two_zpow_pos _

theorem one_sub_roundoff_pos : 0 < 1 - roundoff := by
  have small : roundoff < 1 := zpow_lt_one_of_neg₀ one_lt_two (by norm_num)
  linarith

theorem abs_nearest_add_sub_le {x y : ℝ} (left : OnGrid x) (right : OnGrid y) :
    |nearest (x + y) - (x + y)| ≤ roundoff * |x + y| := by
  obtain ⟨k, rfl⟩ := left.exists_whole
  obtain ⟨l, rfl⟩ := right.exists_whole
  have whole : (k : ℝ) * 2 ^ (-1074 : ℤ) + l * 2 ^ (-1074 : ℤ) = (k + l : ℤ) * 2 ^ (-1074 : ℤ) := by
    push_cast
    ring
  rw [whole]
  rcases lt_or_ge |((k + l : ℤ) : ℝ) * 2 ^ (-1074 : ℤ)| (2 ^ (-1022 : ℤ)) with small | normal
  · rw [nearest_whole small, sub_self, abs_zero]
    exact mul_nonneg roundoff_pos.le (abs_nonneg _)
  · exact abs_nearest_sub_le_mul normal

theorem nearest_le_mul {x : ℝ} (normal : 2 ^ (-1022 : ℤ) ≤ x) : nearest x ≤ (1 + roundoff) * x := by
  have positive := (two_zpow_pos _).trans_le normal
  have close := abs_nearest_sub_le_mul (x := x) (by rwa [abs_of_pos positive])
  rw [abs_of_pos positive] at close
  have upper := (abs_le.mp close).2
  rw [roundoff_def]
  linarith

theorem nearest_le_add {x : ℝ} (nonneg : 0 ≤ x) :
    nearest x ≤ (1 + roundoff) * x + 2 ^ (-1075 : ℤ) := by
  rcases le_or_gt (2 ^ (-1022 : ℤ)) x with normal | small
  · exact (nearest_le_mul normal).trans (le_add_of_nonneg_right (two_zpow_pos _).le)
  · have least : 2 ^ unitPower x / 2 ≤ (2 : ℝ) ^ (-1075 : ℤ) ∨ x = 0 := by
      by_cases zero : x = 0
      · exact .inr zero
      have below : |x| < 2 ^ ((-1074 : ℤ) + 53) := by
        rw [abs_of_nonneg nonneg]
        exact small.trans_le (zpow_le_zpow_right₀ one_le_two (by norm_num))
      have power := le_antisymm (unitPower_le le_rfl zero below) (unitPower_ge x)
      rw [power, div_eq_mul_inv, ← zpow_sub_one₀ two_ne_zero]
      exact .inl le_rfl
    rcases least with bound | rfl
    · have upper := (abs_le.mp ((abs_nearest_sub_le x).trans bound)).2
      have extra := mul_nonneg roundoff_pos.le nonneg
      linarith
    · rw [nearest_zero, mul_zero, zero_add]
      exact (two_zpow_pos _).le

theorem nearest_one_add_roundoff : nearest (1 + roundoff) = 1 := by
  have place : (2 : ℝ) ^ (-52 : ℤ) = 1 / 2 ^ 52 := by norm_num [zpow_neg]
  have size : |1 + roundoff| = 1 + 1 / 2 ^ 53 := by
    rw [roundoff_eq_div, abs_of_pos (by norm_num)]
  have power : nearest (1 + roundoff) = toEven ((1 + roundoff) / 2 ^ (-52 : ℤ)) * 2 ^ (-52 : ℤ) := by
    refine nearest_eq_of_power (by norm_num) ?_ (.inr (.inr ?_)) <;> rw [size] <;> norm_num
  have units : (1 + roundoff) / 2 ^ (-52 : ℤ) = (2 ^ 52 : ℤ) + 1 / 2 := by
    rw [roundoff_eq_div, place]
    norm_num
  have even : toEven ((2 ^ 52 : ℤ) + 1 / 2 : ℝ) = 2 ^ 52 := by
    have floor : ⌊((2 ^ 52 : ℤ) + 1 / 2 : ℝ)⌋ = 2 ^ 52 := by
      rw [Int.floor_intCast_add]
      norm_num
    have fraction : Int.fract ((2 ^ 52 : ℤ) + 1 / 2 : ℝ) = 1 / 2 := by
      rw [Int.fract_intCast_add]
      norm_num
    rw [toEven_of_half fraction, floor]
    norm_num
  rw [power, units, even, place]
  norm_num

theorem nearest_mul_inverse_le {x top : ℝ} (below : x ≤ top) (normal : 1 / 4 ≤ top)
    (most : top ≤ 1) : nearest (x * nearest (1 / top)) ≤ 1 := by
  have positive : 0 < top := by linarith
  have inverse : nearest (1 / top) ≤ (1 + roundoff) * (1 / top) := by
    refine nearest_le_mul ?_
    calc (2 : ℝ) ^ (-1022 : ℤ) ≤ 2 ^ (0 : ℤ) := zpow_le_zpow_right₀ one_le_two (by norm_num)
      _ ≤ 1 / top := by rw [zpow_zero]; exact (one_le_div positive).mpr most
  have above : 0 ≤ nearest (1 / top) := nearest_nonneg (by positivity)
  refine (nearest_mono ?_).trans nearest_one_add_roundoff.le
  calc x * nearest (1 / top) ≤ top * ((1 + roundoff) * (1 / top)) :=
        mul_le_mul below inverse above positive.le
    _ = 1 + roundoff := by field_simp

theorem le_sumNearest {xs : List ℝ} (nonneg : ∀ x ∈ xs, 0 ≤ x) (grid : ∀ x ∈ xs, OnGrid x) :
    (1 - roundoff) ^ xs.length * xs.sum ≤ sumNearest xs := by
  induction xs with
  | nil => simp [sumNearest]
  | cons x xs ih =>
    obtain ⟨head, tail⟩ := List.forall_mem_cons.mp nonneg
    obtain ⟨headGrid, tailGrid⟩ := List.forall_mem_cons.mp grid
    have rest := ih tail tailGrid
    have above := sumNearest_nonneg tail
    have shrinks : (1 - roundoff) ^ xs.length ≤ 1 :=
      pow_le_one₀ one_sub_roundoff_pos.le (by linarith [roundoff_pos])
    have close := abs_nearest_add_sub_le headGrid (onGrid_sumNearest xs)
    rw [abs_of_nonneg (add_nonneg head above)] at close
    rw [List.length_cons, List.sum_cons, pow_succ']
    calc (1 - roundoff) * (1 - roundoff) ^ xs.length * (x + xs.sum)
        = (1 - roundoff) * ((1 - roundoff) ^ xs.length * x + (1 - roundoff) ^ xs.length * xs.sum) := by
          ring
      _ ≤ (1 - roundoff) * (x + sumNearest xs) :=
          mul_le_mul_of_nonneg_left (add_le_add (mul_le_of_le_one_left head shrinks) rest)
            one_sub_roundoff_pos.le
      _ ≤ nearest (x + sumNearest xs) := by linarith [(abs_le.mp close).1]

theorem sumNearest_le {xs ys : List ℝ} (ordered : List.Forall₂ (· ≤ ·) xs ys)
    (normal : ∀ y ∈ ys, 2 ^ (-1022 : ℤ) ≤ y) :
    sumNearest xs ≤ (1 + roundoff) ^ ys.length * ys.sum := by
  induction ordered with
  | nil => simp [sumNearest]
  | @cons x y xs ys first _ ih =>
    obtain ⟨head, tail⟩ := List.forall_mem_cons.mp normal
    have rest := ih tail
    have grows : 1 ≤ (1 + roundoff) ^ ys.length := one_le_pow₀ (by linarith [roundoff_pos])
    have sum : 0 ≤ ys.sum := List.sum_nonneg fun z inside => (two_zpow_pos _).le.trans (tail z inside)
    have nonneg : 0 ≤ (1 + roundoff) ^ ys.length * ys.sum := mul_nonneg (zero_le_one.trans grows) sum
    rw [List.length_cons, List.sum_cons, pow_succ']
    calc nearest (x + sumNearest xs) ≤ nearest (y + (1 + roundoff) ^ ys.length * ys.sum) :=
          nearest_mono (add_le_add first rest)
      _ ≤ (1 + roundoff) * (y + (1 + roundoff) ^ ys.length * ys.sum) :=
          nearest_le_mul (head.trans (le_add_of_nonneg_right nonneg))
      _ ≤ (1 + roundoff) * ((1 + roundoff) ^ ys.length * y + (1 + roundoff) ^ ys.length * ys.sum) := by
          refine mul_le_mul_of_nonneg_left (add_le_add_left ?_ _) (by linarith [roundoff_pos])
          exact le_mul_of_one_le_left ((two_zpow_pos _).le.trans head) grows
      _ = (1 + roundoff) * (1 + roundoff) ^ ys.length * (y + ys.sum) := by ring

/-- A mean by shares of a total, with shares, products and sums rounded. -/
noncomputable def meanNearest (weights xs : List ℝ) : ℝ :=
  sumNearest (List.zipWith (fun w x => nearest (nearest (w / sumNearest weights) * x)) weights xs)

theorem meanNearest_neg (weights xs : List ℝ) :
    meanNearest weights (xs.map fun x => -x) = -meanNearest weights xs := by
  unfold meanNearest
  rw [← sumNearest_neg, List.zipWith_map_right, List.map_zipWith]
  congr 2
  funext w x
  rw [mul_neg, nearest_neg]

theorem forall₂_zipWith_map {f : ℝ → ℝ → ℝ} {g : ℝ → ℝ} {xs ys : List ℝ}
    (lengths : xs.length = ys.length) (each : ∀ x ∈ xs, ∀ y ∈ ys, f x y ≤ g x) :
    List.Forall₂ (· ≤ ·) (List.zipWith f xs ys) (xs.map g) := by
  induction xs generalizing ys with
  | nil => exact .nil
  | cons x xs ih =>
    cases ys with
    | nil => contradiction
    | cons y ys =>
      refine .cons (each x List.mem_cons_self y List.mem_cons_self) (ih (Nat.succ.inj lengths) ?_)
      exact fun x inside y reported =>
        each x (List.mem_cons_of_mem _ inside) y (List.mem_cons_of_mem _ reported)

section Mean

variable {high : ℝ} (least : 1 ≤ high) (most : high ≤ 512)

include least most

theorem nearest_share_le {share x : ℝ} (nonneg : 0 ≤ share) (bound : x ≤ high) :
    nearest (nearest share * x) ≤ high * (1 + roundoff) ^ 2 * share + 2 ^ (-1000 : ℤ) := by
  have positive := roundoff_pos
  have small : roundoff ≤ 1 := by linarith [one_sub_roundoff_pos]
  have tiny : (2 : ℝ) ^ (-1075 : ℤ) * 1025 ≤ 2 ^ (-1000 : ℤ) := by
    rw [show (-1000 : ℤ) = -1075 + 75 by norm_num, zpow_add₀ two_ne_zero]
    exact mul_le_mul_of_nonneg_left (by norm_num) (two_zpow_pos _).le
  have shared := nearest_le_add nonneg
  have product := nearest_le_add (mul_nonneg (nearest_nonneg nonneg) (zero_le_one.trans least))
  have eta := two_zpow_pos (-1075)
  generalize (2 : ℝ) ^ (-1075 : ℤ) = loss at tiny eta shared product
  have factor : 0 ≤ (1 + roundoff) * high := by positivity
  have scaled : (1 + roundoff) * high ≤ 1024 := by nlinarith
  calc nearest (nearest share * x) ≤ nearest (nearest share * high) :=
        nearest_mono (mul_le_mul_of_nonneg_left bound (nearest_nonneg nonneg))
    _ ≤ (1 + roundoff) * (nearest share * high) + loss := product
    _ = (1 + roundoff) * high * nearest share + loss := by ring
    _ ≤ (1 + roundoff) * high * ((1 + roundoff) * share + loss) + loss := by
        linarith [mul_le_mul_of_nonneg_left shared factor]
    _ = high * (1 + roundoff) ^ 2 * share + ((1 + roundoff) * high * loss + loss) := by ring
    _ ≤ high * (1 + roundoff) ^ 2 * share + 2 ^ (-1000 : ℤ) := by
        linarith [mul_le_mul_of_nonneg_right scaled eta.le]

omit most in
theorem mean_estimate {sum total mean : ℝ} {n : Nat} (above : (1 - roundoff) ^ n * sum ≤ total)
    (positive : 0 < total) (nonneg : 0 ≤ sum) (few : n ≤ 2 ^ 40)
    (bounded : mean ≤ (1 + roundoff) ^ n *
      (high * (1 + roundoff) ^ 2 * (sum / total) + n * 2 ^ (-1000 : ℤ))) :
    mean ≤ high * (1 + 1 / 2 ^ 11) := by
  have count : (n : ℝ) ≤ 2 ^ 40 := by exact_mod_cast few
  -- by the inequality of Bernoulli
  have loss : 1 - 1 / 2 ^ 13 ≤ (1 - roundoff) ^ n := by
    have bernoulli := one_add_mul_le_pow (a := -roundoff) (by linarith [one_sub_roundoff_pos]) n
    rw [← sub_eq_add_neg] at bernoulli
    rw [roundoff_eq_div] at bernoulli ⊢
    linarith
  have grows : 0 ≤ (1 + roundoff) ^ n := pow_nonneg (by linarith [roundoff_pos]) n
  have portion : 0 ≤ sum / total := div_nonneg nonneg positive.le
  have factor : (1 + roundoff) ^ n ≤ 1 / (1 - 1 / 2 ^ 13) := by
    rw [le_div_iff₀ (by norm_num)]
    refine (mul_le_mul_of_nonneg_left loss grows).trans ?_
    rw [← mul_pow]
    exact pow_le_one₀ (by nlinarith [one_sub_roundoff_pos, roundoff_pos])
      (by nlinarith [sq_nonneg roundoff])
  have share : sum / total ≤ 1 / (1 - 1 / 2 ^ 13) := by
    rw [le_div_iff₀ (by norm_num)]
    refine (mul_le_mul_of_nonneg_left loss portion).trans ?_
    rw [mul_comm, mul_div_assoc']
    exact div_le_one_of_le₀ above positive.le
  have extra : (n : ℝ) * 2 ^ (-1000 : ℤ) ≤ 1 / 2 ^ 20 := by
    have small : (2 : ℝ) ^ (-1000 : ℤ) ≤ 2 ^ (-60 : ℤ) :=
      zpow_le_zpow_right₀ one_le_two (by norm_num)
    have numeral : (2 : ℝ) ^ (-60 : ℤ) = 1 / 2 ^ 60 := by norm_num [zpow_neg]
    rw [numeral] at small
    calc (n : ℝ) * 2 ^ (-1000 : ℤ) ≤ 2 ^ 40 * (1 / 2 ^ 60) :=
          mul_le_mul count small (two_zpow_pos _).le (by norm_num)
      _ = 1 / 2 ^ 20 := by norm_num
  have rest : 0 ≤ (n : ℝ) * 2 ^ (-1000 : ℤ) := mul_nonneg (Nat.cast_nonneg n) (two_zpow_pos _).le
  generalize (n : ℝ) * 2 ^ (-1000 : ℤ) = rounding at bounded extra rest
  calc mean ≤ (1 + roundoff) ^ n * (high * (1 + roundoff) ^ 2 * (sum / total) + rounding) := bounded
    _ ≤ 1 / (1 - 1 / 2 ^ 13) * (high * (1 + roundoff) ^ 2 * (1 / (1 - 1 / 2 ^ 13)) + 1 / 2 ^ 20) := by
        gcongr
    _ ≤ high * (1 + 1 / 2 ^ 11) := by
        rw [roundoff_eq_div]
        linarith

theorem meanNearest_le {weights xs : List ℝ} (few : weights.length ≤ 2 ^ 40)
    (lengths : weights.length = xs.length) (nonneg : ∀ w ∈ weights, 0 ≤ w)
    (grid : ∀ w ∈ weights, OnGrid w) (positive : 0 < sumNearest weights)
    (bound : ∀ x ∈ xs, x ≤ high) : meanNearest weights xs ≤ high * (1 + 1 / 2 ^ 11) := by
  have ordered : List.Forall₂ (· ≤ ·)
      (List.zipWith (fun w x => nearest (nearest (w / sumNearest weights) * x)) weights xs)
      (weights.map fun w =>
        high * (1 + roundoff) ^ 2 * (w / sumNearest weights) + 2 ^ (-1000 : ℤ)) :=
    forall₂_zipWith_map lengths fun w inside x reported =>
      nearest_share_le least most (div_nonneg (nonneg w inside) positive.le) (bound x reported)
  have normal : ∀ y ∈ weights.map fun w =>
      high * (1 + roundoff) ^ 2 * (w / sumNearest weights) + (2 : ℝ) ^ (-1000 : ℤ),
      (2 : ℝ) ^ (-1022 : ℤ) ≤ y := by
    intro y inside
    obtain ⟨w, member, rfl⟩ := List.mem_map.mp inside
    have share := div_nonneg (nonneg w member) positive.le
    have product : 0 ≤ high * (1 + roundoff) ^ 2 * (w / sumNearest weights) := by positivity
    have powers : (2 : ℝ) ^ (-1022 : ℤ) ≤ 2 ^ (-1000 : ℤ) :=
      zpow_le_zpow_right₀ one_le_two (by norm_num)
    linarith
  have bounded := sumNearest_le ordered normal
  have shares : (weights.map fun w => w / sumNearest weights).sum =
      weights.sum / sumNearest weights := by
    simp only [div_eq_mul_inv, List.sum_map_mul_right, List.map_id']
  rw [List.length_map, List.sum_map_add, List.sum_map_mul_left, shares, List.map_const',
    List.sum_replicate, nsmul_eq_mul] at bounded
  refine mean_estimate least (le_sumNearest nonneg grid) positive (List.sum_nonneg nonneg) few bounded

end Mean

end RoundScoring.Binary64
