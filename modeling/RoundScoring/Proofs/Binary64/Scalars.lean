import Mathlib.Data.List.Forall2
import RoundScoring.Binary64.Elementary
import RoundScoring.Proofs.Binary64.Powers
import RoundScoring.Proofs.Binary64.Sums

/-!
What scalar rules make of finite numbers. Where nothing is too large they keep within the bounds of
what they are given: extremes choose one of their numbers, sums stay within multiples of the number of
summands, and means and roots of means stay where their numbers are.
-/

namespace RoundScoring.Binary64

open Scalar

theorem Within.mono {low high low' high' : ℝ} {x : Float} (within : Within low high x)
    (lower : low' ≤ low) (upper : high ≤ high') : Within low' high' x :=
  ⟨within.finite, lower.trans within.low_le, within.le_high.trans upper⟩

theorem value_zero : (0 : Float).isFinite = true ∧ value 0 = 0 := by
  have known : content 0 = .finite false 0 0 := by decide
  obtain ⟨finite, worth⟩ := value_of_content known
  exact ⟨finite, worth.trans (by norm_num)⟩

theorem representable_zero : Representable 0 := by
  rw [← value_zero.2]
  exact representable_value value_zero.1

theorem representable_one : Representable 1 := by
  rw [← value_one.2]
  exact representable_value value_one.1

theorem isLoss_iff {x : Float} : IsLoss x ↔ x.isFinite = true ∧ 0 < value x := by
  refine and_congr_right fun finite => ?_
  rw [← value_zero.2]
  exact lt_iff value_zero.1 finite

theorem within_one : Within 0 1 1 :=
  ⟨value_one.1, by rw [value_one.2]; exact zero_le_one, value_one.2.le⟩

section Extremes

variable {x y : Float} (left : x.isFinite = true) (right : y.isFinite = true)

include left right

theorem larger_cases :
    (larger x y = y ∧ value x ≤ value y) ∨ (larger x y = x ∧ value y ≤ value x) := by
  unfold larger
  by_cases ordered : x ≤ y
  · exact .inl ⟨if_pos ordered, (le_iff left right).mp ordered⟩
  · have reversed : value y ≤ value x := by
      rw [le_iff left right, not_le] at ordered
      exact ordered.le
    rw [if_neg ordered, if_pos ((le_iff right left).mpr reversed)]
    exact .inr ⟨rfl, reversed⟩

theorem smaller_cases :
    (smaller x y = x ∧ value x ≤ value y) ∨ (smaller x y = y ∧ value y ≤ value x) := by
  unfold smaller
  by_cases ordered : x ≤ y
  · exact .inl ⟨if_pos ordered, (le_iff left right).mp ordered⟩
  · have reversed : value y ≤ value x := by
      rw [le_iff left right, not_le] at ordered
      exact ordered.le
    rw [if_neg ordered, if_pos ((le_iff right left).mpr reversed)]
    exact .inr ⟨rfl, reversed⟩

end Extremes

theorem foldl_larger_spec (rest : List Float) (x : Float)
    (finite : ∀ y ∈ x :: rest, y.isFinite = true) :
    rest.foldl larger x ∈ x :: rest ∧ ∀ y ∈ x :: rest, value y ≤ value (rest.foldl larger x) := by
  induction rest generalizing x with
  | nil => simp
  | cons z rest ih =>
    obtain ⟨first, others⟩ := List.forall_mem_cons.mp finite
    obtain ⟨second, later⟩ := List.forall_mem_cons.mp others
    rw [List.foldl_cons]
    rcases larger_cases first second with ⟨same, ordered⟩ | ⟨same, ordered⟩
    · rw [same]
      obtain ⟨member, above⟩ := ih z others
      refine ⟨List.mem_cons_of_mem _ member, List.forall_mem_cons.mpr ⟨?_, above⟩⟩
      exact ordered.trans (above z List.mem_cons_self)
    · rw [same]
      obtain ⟨member, above⟩ := ih x (List.forall_mem_cons.mpr ⟨first, later⟩)
      obtain ⟨top, rests⟩ := List.forall_mem_cons.mp above
      refine ⟨?_, List.forall_mem_cons.mpr ⟨top, List.forall_mem_cons.mpr ⟨ordered.trans top, rests⟩⟩⟩
      rcases List.mem_cons.mp member with here | there
      · exact List.mem_cons.mpr (.inl here)
      · exact List.mem_cons_of_mem _ (List.mem_cons_of_mem _ there)

theorem greatest_spec {xs : List Float} (somebody : xs ≠ [])
    (finite : ∀ x ∈ xs, x.isFinite = true) :
    greatest xs ∈ xs ∧ ∀ x ∈ xs, value x ≤ value (greatest xs) := by
  cases xs with
  | nil => exact absurd rfl somebody
  | cons x rest => exact foldl_larger_spec rest x finite

theorem le_of_infinite {x y : Float} (finite : x.isFinite = true)
    (infinite : y.toModel.unpack = .infinity .positive) : x ≤ y ∧ ¬y ≤ x := by
  have canonical := canonical_of_isFinite finite
  rw [le_iff_compare, le_iff_compare, infinite]
  generalize x.toModel.unpack = u at canonical
  cases u with
  | infinity => exact canonical.elim
  | notANumber => exact canonical.elim
  | zero => exact ⟨rfl, Bool.false_ne_true⟩
  | finite => exact ⟨rfl, Bool.false_ne_true⟩

theorem nonneg_cases {x : Float} (nonneg : 0 ≤ x) :
    (x.isFinite = true ∧ 0 ≤ value x) ∨ x.toModel.unpack = .infinity .positive := by
  by_cases finite : x.isFinite = true
  · rw [← value_zero.2]
    exact .inl ⟨finite, (le_iff value_zero.1 finite).mp nonneg⟩
  · right
    have canonical := canonical_of_isFinite value_zero.1
    have above := le_iff_compare.mp nonneg
    have notFinite : ¬x.toModel.unpack.isFinite = true := finite
    generalize (0 : Float).toModel.unpack = zero at above canonical
    generalize x.toModel.unpack = u at above notFinite
    cases u with
    | infinity sign =>
      cases sign with
      | positive => rfl
      | negative =>
        cases zero with
        | infinity => exact canonical.elim
        | notANumber => exact canonical.elim
        | zero => cases above
        | finite => cases above
    | notANumber => cases zero <;> cases above
    | zero => exact absurd rfl notFinite
    | finite => exact absurd rfl notFinite

section Clamping

variable {low high x : Float} (least : low.isFinite = true) (greatest : high.isFinite = true)

include least greatest

theorem value_clamp (finite : x.isFinite = true) :
    (clamp low high x).isFinite = true ∧
      value (clamp low high x) = min (max (value x) (value low)) (value high) := by
  have above : (larger x low).isFinite = true ∧ value (larger x low) = max (value x) (value low) := by
    rcases larger_cases finite least with ⟨same, ordered⟩ | ⟨same, ordered⟩
    · rw [same]
      exact ⟨least, (max_eq_right ordered).symm⟩
    · rw [same]
      exact ⟨finite, (max_eq_left ordered).symm⟩
  obtain ⟨finite, worth⟩ := above
  unfold clamp
  rw [← worth]
  rcases smaller_cases finite greatest with ⟨same, ordered⟩ | ⟨same, ordered⟩
  · rw [same]
    exact ⟨finite, (min_eq_left ordered).symm⟩
  · rw [same]
    exact ⟨greatest, (min_eq_right ordered).symm⟩

theorem clamp_of_infinite (infinite : x.toModel.unpack = .infinity .positive) :
    clamp low high x = high := by
  obtain ⟨overLow, notLow⟩ := le_of_infinite least infinite
  obtain ⟨overHigh, notHigh⟩ := le_of_infinite greatest infinite
  unfold clamp larger smaller
  rw [if_neg notLow, if_pos overLow, if_neg notHigh, if_pos overHigh]

theorem within_clamp (ordered : value low ≤ value high) (nonneg : 0 ≤ x) :
    Within (value low) (value high) (clamp low high x) := by
  obtain ⟨finite, -⟩ | infinite := nonneg_cases nonneg
  · obtain ⟨finite, worth⟩ := value_clamp least greatest finite
    refine ⟨finite, ?_, ?_⟩ <;> rw [worth]
    · exact le_min (le_max_right _ _) ordered
    · exact min_le_right _ _
  · rw [clamp_of_infinite least greatest infinite]
    exact ⟨greatest, ordered, le_rfl⟩

end Clamping

theorem isFinite_pack_infinity (sign : Float.Model.UnpackedFloat.Sign) :
    (Float.Model.pack (.infinity sign)).unpack.isFinite = false := by
  cases sign <;> decide

theorem isFinite_pack_notANumber : (Float.Model.pack .notANumber).unpack.isFinite = false := by
  decide

theorem isFinite_of_add {x y : Float} (finite : (x + y).isFinite = true) :
    x.isFinite = true ∧ y.isFinite = true := by
  have sum : (Float.Model.pack (Float.Model.UnpackedFloat.add .binary64 x.toModel.unpack
    y.toModel.unpack)).unpack.isFinite = true := finite
  change x.toModel.unpack.isFinite = true ∧ y.toModel.unpack.isFinite = true
  generalize x.toModel.unpack = u at sum
  generalize y.toModel.unpack = v at sum
  cases u with
  | notANumber => cases isFinite_pack_notANumber.symm.trans sum
  | infinity sign =>
    cases v with
    | notANumber => cases isFinite_pack_notANumber.symm.trans sum
    | infinity other =>
      cases sign <;> cases other
      · cases (isFinite_pack_infinity _).symm.trans sum
      · cases isFinite_pack_notANumber.symm.trans sum
      · cases isFinite_pack_notANumber.symm.trans sum
      · cases (isFinite_pack_infinity _).symm.trans sum
    | zero => cases (isFinite_pack_infinity sign).symm.trans sum
    | finite => cases (isFinite_pack_infinity sign).symm.trans sum
  | zero =>
    cases v with
    | notANumber => cases isFinite_pack_notANumber.symm.trans sum
    | infinity other => cases (isFinite_pack_infinity other).symm.trans sum
    | zero => exact ⟨rfl, rfl⟩
    | finite => exact ⟨rfl, rfl⟩
  | finite =>
    cases v with
    | notANumber => cases isFinite_pack_notANumber.symm.trans sum
    | infinity other => cases (isFinite_pack_infinity other).symm.trans sum
    | zero => exact ⟨rfl, rfl⟩
    | finite => exact ⟨rfl, rfl⟩

theorem value_sum {xs : List Float} (finite : xs.sum.isFinite = true) :
    (∀ x ∈ xs, x.isFinite = true) ∧ value xs.sum = sumNearest (xs.map value) := by
  induction xs with
  | nil => exact ⟨fun x inside => absurd inside List.not_mem_nil, value_zero.2⟩
  | cons x xs ih =>
    rw [List.sum_cons] at finite ⊢
    obtain ⟨head, tail⟩ := isFinite_of_add finite
    obtain ⟨each, summed⟩ := ih tail
    refine ⟨List.forall_mem_cons.mpr ⟨head, each⟩, ?_⟩
    rw [(roundsTo_add head tail).value_eq finite, summed]
    rfl

/-- What stands for part of a finite sum, with numbers that are no greater. -/
def AtMost (x y : Float) : Prop := x.isFinite = true ∧ 0 ≤ value x ∧ value x ≤ value y

theorem within_sum_of_le {xs ys : List Float} (smaller : List.SublistForall₂ AtMost xs ys)
    (nonneg : ∀ y ∈ ys, 0 ≤ value y) (finite : ys.sum.isFinite = true) :
    Within 0 (value ys.sum) xs.sum := by
  induction smaller with
  | @nil ys =>
    refine ⟨value_zero.1, value_zero.2.ge, ?_⟩
    rw [(value_sum finite).2]
    refine value_zero.2.le.trans (sumNearest_nonneg fun r inside => ?_)
    obtain ⟨y, member, rfl⟩ := List.mem_map.mp inside
    exact nonneg y member
  | @cons x y xs ys head _ ih =>
    obtain ⟨first, rest⟩ := List.forall_mem_cons.mp nonneg
    rw [List.sum_cons] at finite ⊢
    obtain ⟨left, right⟩ := isFinite_of_add finite
    have tail := ih rest right
    have whole := roundsTo_add left right
    have part := roundsTo_add head.1 tail.finite
    have low := nearest_nonneg (add_nonneg head.2.1 tail.low_le)
    have high := nearest_mono (add_le_add head.2.2 tail.le_high)
    have small : (x + xs.sum).isFinite = true := by
      rw [part.isFinite_iff, abs_of_nonneg low]
      exact (high.trans (le_abs_self _)).trans_lt (whole.isFinite_iff.mp finite)
    rw [← part.value_eq small] at low high
    rw [← whole.value_eq finite] at high
    exact ⟨small, low, high⟩
  | @cons_right y xs ys _ ih =>
    obtain ⟨first, rest⟩ := List.forall_mem_cons.mp nonneg
    rw [List.sum_cons] at finite ⊢
    obtain ⟨left, right⟩ := isFinite_of_add finite
    refine (ih rest right).mono le_rfl ?_
    rw [(roundsTo_add left right).value_eq finite]
    refine le_nearest (representable_value right).onGrid ?_
    exact le_add_of_nonneg_left first

theorem isFinite_sum_of_sublist {xs ys : List Float} (part : xs.Sublist ys)
    (nonneg : ∀ y ∈ ys, 0 ≤ value y) (finite : ys.sum.isFinite = true) : xs.sum.isFinite = true := by
  have kept : List.Forall₂ AtMost xs xs := by
    rw [List.forall₂_same]
    intro x inside
    have member := part.subset inside
    exact ⟨(value_sum finite).1 x member, nonneg x member, le_rfl⟩
  exact (within_sum_of_le (List.sublistForall₂_iff.mpr ⟨xs, kept, part⟩) nonneg finite).finite

theorem le_value_sum {xs : List Float} (nonneg : ∀ x ∈ xs, 0 ≤ value x)
    (finite : xs.sum.isFinite = true) {x : Float} (inside : x ∈ xs) : value x ≤ value xs.sum := by
  induction xs with
  | nil => cases inside
  | cons y xs ih =>
    obtain ⟨first, rest⟩ := List.forall_mem_cons.mp nonneg
    rw [List.sum_cons] at finite ⊢
    obtain ⟨left, right⟩ := isFinite_of_add finite
    have summed := (value_sum right).2
    have above : 0 ≤ value xs.sum := by
      rw [summed]
      exact sumNearest_nonneg (List.forall_mem_map.mpr rest)
    rw [(roundsTo_add left right).value_eq finite]
    rcases List.mem_cons.mp inside with rfl | later
    · exact le_nearest (representable_value left).onGrid (le_add_of_nonneg_right above)
    · exact (ih rest right later).trans
        (le_nearest (representable_value right).onGrid (le_add_of_nonneg_left first))

theorem RoundsTo.within_int {x : Float} {r : ℝ} {low high : ℤ} (rounds : RoundsTo x r)
    (few : |low| ≤ 2 ^ 53) (few' : |high| ≤ 2 ^ 53) (low_le : low ≤ r) (le_high : r ≤ high) :
    Within low high x :=
  rounds.within ⟨representable_intCast few, representable_intCast few', low_le, le_high⟩

theorem within_sum {xs : List Float} {low high : ℤ} (least : xs.length * |low| ≤ 2 ^ 53)
    (most : xs.length * |high| ≤ 2 ^ 53) (each : ∀ x ∈ xs, Within low high x) :
    Within (xs.length * low) (xs.length * high) xs.sum := by
  induction xs with
  | nil => exact ⟨value_zero.1, by simp [value_zero.2], by simp [value_zero.2]⟩
  | cons x xs ih =>
    obtain ⟨head, tail⟩ := List.forall_mem_cons.mp each
    rw [List.length_cons, Nat.cast_succ, add_one_mul] at least most
    have rest := ih (by linarith [abs_nonneg low]) (by linarith [abs_nonneg high]) tail
    have few : ∀ k : ℤ, xs.length * |k| + |k| ≤ 2 ^ 53 → |xs.length * k + k| ≤ 2 ^ 53 := by
      intro k bounded
      refine (abs_add_le _ _).trans ?_
      rwa [abs_mul, Nat.abs_cast]
    have sum := (roundsTo_add head.finite rest.finite).within_int (few low least) (few high most)
      (by push_cast; linarith [head.low_le, rest.low_le])
      (by push_cast; linarith [head.le_high, rest.le_high])
    push_cast at sum
    rwa [List.sum_cons, List.length_cons, Nat.cast_succ, add_one_mul, add_one_mul]

section Mean

variable {weights logs : List Float} {low high : ℝ} (few : weights.length ≤ 2 ^ 40)
  (lengths : weights.length = logs.length) (nonneg : ∀ w ∈ weights, 0 ≤ value w)
  (finite : weights.sum.isFinite = true) (positive : 0 < value weights.sum)
  (least : 1 ≤ -low ∧ -low ≤ 512) (most : 1 ≤ high ∧ high ≤ 512)
  (each : ∀ x ∈ logs, Within low high x)

include nonneg finite positive

theorem within_share {w : Float} (inside : w ∈ weights) : Within 0 1 (w / weights.sum) := by
  have ratio := roundsTo_div ((value_sum finite).1 w inside) finite positive.ne'
  have unit : Within (0 : ℤ) (1 : ℤ) (w / weights.sum) := ratio.within_int (by norm_num)
    (by norm_num) (by rw [Int.cast_zero]; exact div_nonneg (nonneg w inside) positive.le)
    (by rw [Int.cast_one]; exact div_le_one_of_le₀ (le_value_sum nonneg finite inside) positive.le)
  rwa [Int.cast_zero, Int.cast_one] at unit

include least most each

theorem share_mul {w x : Float} (inside : w ∈ weights) (reported : x ∈ logs) :
    Within (-512 : ℤ) (512 : ℤ) (w / weights.sum * x) ∧
      value (w / weights.sum * x) = nearest (nearest (value w / value weights.sum) * value x) := by
  have ratio := roundsTo_div ((value_sum finite).1 w inside) finite positive.ne'
  have share := within_share nonneg finite positive inside
  have log := each x reported
  have product := roundsTo_mul share.finite log.finite
  have size : |value (w / weights.sum) * value x| ≤ 512 := by
    rw [abs_mul, abs_of_nonneg share.low_le]
    refine (mul_le_of_le_one_left (abs_nonneg _) share.le_high).trans (abs_le.mpr ⟨?_, ?_⟩)
    · linarith [log.low_le]
    · linarith [log.le_high]
  obtain ⟨above, below⟩ := abs_le.mp size
  have within : Within (-512 : ℤ) (512 : ℤ) (w / weights.sum * x) := product.within_int (by norm_num)
    (by norm_num) (by exact_mod_cast above) (by exact_mod_cast below)
  refine ⟨within, ?_⟩
  rw [product.value_eq within.finite, ratio.value_eq share.finite]

include few lengths

theorem within_weightedMean :
    Within (low * (1 + 1 / 2 ^ 11)) (high * (1 + 1 / 2 ^ 11))
      (List.zipWith (fun w x => w / weights.sum * x) weights logs).sum := by
  have terms := fun w inside x reported =>
    share_mul nonneg finite positive least most each (w := w) (x := x) inside reported
  have count : (List.zipWith (fun w x => w / weights.sum * x) weights logs).length ≤ 2 ^ 40 := by
    rw [List.length_zipWith]
    exact (min_le_left _ _).trans few
  have small : (List.zipWith (fun w x => w / weights.sum * x) weights logs).sum.isFinite = true := by
    have bounded : ∀ term ∈ List.zipWith (fun w x => w / weights.sum * x) weights logs,
        Within (-512 : ℤ) (512 : ℤ) term := by
      intro term inside
      rw [← List.map_uncurry_zip_eq_zipWith] at inside
      obtain ⟨⟨w, x⟩, paired, rfl⟩ := List.mem_map.mp inside
      obtain ⟨left, right⟩ := List.of_mem_zip paired
      exact (terms w left x right).1
    exact (within_sum (by norm_num; omega) (by norm_num; omega) bounded).finite
  obtain ⟨-, summed⟩ := value_sum finite
  have mean : value (List.zipWith (fun w x => w / weights.sum * x) weights logs).sum =
      meanNearest (weights.map value) (logs.map value) := by
    unfold meanNearest
    rw [(value_sum small).2, List.map_zipWith, List.zipWith_map, ← summed]
    congr 1
    refine List.zipWith_congr _ _ _ _ (List.forall₂_iff_zip.mpr ⟨lengths, fun paired => ?_⟩)
    obtain ⟨left, right⟩ := List.of_mem_zip paired
    exact (terms _ left _ right).2
  have weightsNonneg := List.forall_mem_map.mpr nonneg
  have weightsGrid : ∀ r ∈ weights.map value, OnGrid r := List.forall_mem_map.mpr fun w inside =>
    (representable_value ((value_sum finite).1 w inside)).onGrid
  rw [summed] at positive
  refine ⟨small, ?_, ?_⟩
  · rw [mean]
    have negated : meanNearest (weights.map value) ((logs.map value).map fun r => -r) ≤
        -low * (1 + 1 / 2 ^ 11) := meanNearest_le least.1 least.2 (by simpa using few)
      (by simpa using lengths) weightsNonneg weightsGrid positive
      (List.forall_mem_map.mpr (List.forall_mem_map.mpr fun x reported =>
        neg_le_neg (each x reported).low_le))
    rw [meanNearest_neg] at negated
    linarith
  · rw [mean]
    exact meanNearest_le most.1 most.2 (by simpa using few) (by simpa using lengths) weightsNonneg
      weightsGrid positive (List.forall_mem_map.mpr fun x reported => (each x reported).le_high)

end Mean

theorem within_rootMeanSquare {xs : List Float} (somebody : xs ≠ []) (few : xs.length ≤ 2 ^ 20)
    (each : ∀ x ∈ xs, Within (-(2 ^ 10)) (2 ^ 10) x) : Within 0 (2 ^ 10) (rootMeanSquare xs) := by
  have squares : ∀ y ∈ xs.map fun x => x * x, Within (0 : ℤ) (2 ^ 20 : ℤ) y := by
    refine List.forall_mem_map.mpr fun x inside => ?_
    have bounded := each x inside
    refine (roundsTo_mul bounded.finite bounded.finite).within_int (by norm_num) (by norm_num) ?_ ?_
    · rw [Int.cast_zero]
      exact mul_self_nonneg _
    · push_cast
      nlinarith [bounded.low_le, bounded.le_high]
  have sum := within_sum (by norm_num) (by rw [List.length_map]; norm_num; omega) squares
  rw [List.length_map, Int.cast_zero, mul_zero] at sum
  obtain ⟨counted, count⟩ := value_ofNat (n := xs.length) (by omega)
  have some : (0 : ℝ) < xs.length := by exact_mod_cast List.length_pos_iff.mpr somebody
  have mean : Within (0 : ℤ) (2 ^ 20 : ℤ) ((xs.map fun x => x * x).sum / Float.ofNat xs.length) := by
    refine (roundsTo_div sum.finite counted (by rw [count]; exact some.ne')).within_int (by norm_num)
      (by norm_num) ?_ ?_
    · rw [Int.cast_zero, count]
      exact div_nonneg sum.low_le some.le
    · rw [count, div_le_iff₀ some, mul_comm]
      exact sum.le_high
  have nonneg := mean.low_le
  rw [Int.cast_zero] at nonneg
  have root : Within (0 : ℤ) (2 ^ 10 : ℤ) (rootMeanSquare xs) := by
    refine (roundsTo_sqrt mean.finite nonneg).within_int (by norm_num) (by norm_num) ?_ ?_
    · rw [Int.cast_zero]
      exact Real.sqrt_nonneg _
    · refine Real.sqrt_le_iff.mpr ⟨by norm_num, mean.le_high.trans ?_⟩
      norm_num
  exact root.mono (by norm_num) (by norm_num)

end RoundScoring.Binary64
