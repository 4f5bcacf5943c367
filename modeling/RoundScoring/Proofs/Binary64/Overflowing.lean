import RoundScoring.Proofs.Binary64.Scalars

/-!
Numbers that may become too large. A sum of numbers is infinite at worst, and a number divided by
what is infinite vanishes; so shares of a sum are shares, whatever the sum is. Sums of numbers of one
size grow until a summand is less than half a unit of them, which bounds sums of any length.
-/

namespace RoundScoring.Binary64

open Float.Model (UnpackedFloat)
open Scalar

/-- Too large for a number, on either side of zero. -/
def Infinite (x : Float) : Prop := ∃ sign, x.toModel.unpack = .infinity sign

theorem infinite_of_unpacked {x : Float} {sign : UnpackedFloat.Sign}
    (packed : x = .ofModel (.pack (.infinity sign))) : Infinite x := by
  rw [packed]
  refine ⟨sign, ?_⟩
  cases sign <;> rfl

section Special

variable {x bound : Float}

theorem finite_or_negative_of_le (finite : bound.isFinite = true) (ordered : x ≤ bound) :
    x.isFinite = true ∨ x.toModel.unpack = .infinity .negative := by
  have canonical := canonical_of_isFinite finite
  rw [le_iff_compare] at ordered
  change x.toModel.unpack.isFinite = true ∨ _
  generalize bound.toModel.unpack = b at canonical ordered
  generalize x.toModel.unpack = u at ordered
  cases u with
  | zero => exact .inl rfl
  | finite => exact .inl rfl
  | notANumber => cases b <;> cases ordered
  | infinity sign =>
    cases sign with
    | negative => exact .inr rfl
    | positive =>
      cases b with
      | infinity => exact canonical.elim
      | notANumber => exact canonical.elim
      | zero => cases ordered
      | finite => cases ordered

theorem lt_of_negative (finite : bound.isFinite = true)
    (negative : x.toModel.unpack = .infinity .negative) : x < bound ∧ ¬bound ≤ x := by
  have canonical := canonical_of_isFinite finite
  have less : x < bound ↔
      (UnpackedFloat.compare x.toModel.unpack bound.toModel.unpack == some .lt) = true :=
    decide_eq_true_iff
  rw [le_iff_compare, less, negative]
  generalize bound.toModel.unpack = b at canonical
  cases b with
  | infinity => exact canonical.elim
  | notANumber => exact canonical.elim
  | zero => exact ⟨rfl, Bool.false_ne_true⟩
  | finite => exact ⟨rfl, Bool.false_ne_true⟩

theorem within_of_between {least : Float} (first : least.isFinite = true)
    (last : bound.isFinite = true) (above : least ≤ x) (below : x ≤ bound) :
    Within (value least) (value bound) x := by
  rcases finite_or_negative_of_le last below with finite | negative
  · exact ⟨finite, (le_iff first finite).mp above, (le_iff finite last).mp below⟩
  · exact absurd above (lt_of_negative first negative).2

theorem within_of_not_lt (finite : bound.isFinite = true) (above : ¬x < 0) (below : x ≤ bound) :
    Within 0 (value bound) x := by
  rcases finite_or_negative_of_le finite below with number | negative
  · rw [lt_iff number value_zero.1, value_zero.2, not_lt] at above
    exact ⟨number, above, (le_iff number finite).mp below⟩
  · exact absurd (lt_of_negative value_zero.1 negative).1 above

end Special

theorem le_of_less {x y : Float} (ordered : x < y) : x ≤ y := by
  have less : (UnpackedFloat.compare x.toModel.unpack y.toModel.unpack == some .lt) = true :=
    decide_eq_true_iff.mp ordered
  rw [le_iff_compare, beq_iff_eq.mp less]
  rfl

theorem within_of_less {low high bound : Float} (finite : bound.isFinite = true) (nonneg : 0 ≤ low)
    (ordered : low < high) (below : high ≤ bound) :
    Within 0 (value high) low ∧ Within 0 (value bound) high ∧ value low < value high := by
  have weakly := le_of_less ordered
  rcases nonneg_cases nonneg with ⟨number, above⟩ | infinite <;>
    rcases finite_or_negative_of_le finite below with number' | negative
  · have strictly := (lt_iff number number').mp ordered
    have most := (le_iff number' finite).mp below
    exact ⟨⟨number, above, strictly.le⟩, ⟨number', above.trans strictly.le, most⟩, strictly⟩
  · exact absurd weakly (lt_of_negative number negative).2
  · exact absurd weakly (le_of_infinite number' infinite).2
  · rw [le_iff_compare, infinite, negative] at weakly
    cases weakly

theorem RoundsTo.infinite {x : Float} {r : ℝ} (rounds : RoundsTo x r)
    (large : ¬x.isFinite = true) : Infinite x := by
  rw [rounds.isFinite_iff] at large
  obtain ⟨u, rfl, canonical, worth⟩ := rounds
  rw [← worth, ← fits_iff canonical] at large
  exact unpack_pack_of_not_fits large

theorem infinite_add {x y : Float} (finite : x.isFinite = true) (infinite : Infinite y) :
    Infinite (x + y) := by
  obtain ⟨sign, infinite⟩ := infinite
  have canonical := canonical_of_isFinite finite
  have sum : x + y = .ofModel (.pack (.add .binary64 x.toModel.unpack y.toModel.unpack)) := rfl
  have same : x + y = .ofModel (.pack (.infinity sign)) := by
    rw [sum, infinite]
    generalize x.toModel.unpack = u at canonical
    cases u with
    | infinity => exact canonical.elim
    | notANumber => exact canonical.elim
    | zero => rfl
    | finite => rfl
  exact infinite_of_unpacked same

theorem within_div_infinite {x y : Float} (finite : x.isFinite = true) (infinite : Infinite y) :
    Within 0 0 (x / y) := by
  obtain ⟨sign, infinite⟩ := infinite
  have canonical := canonical_of_isFinite finite
  have quotient : x / y = .ofModel (.pack (.div .binary64 x.toModel.unpack y.toModel.unpack)) := rfl
  have zero : ∃ sign, x / y = .ofModel (.pack (.zero sign)) := by
    rw [quotient, infinite]
    generalize x.toModel.unpack = u at canonical
    cases u with
    | infinity => exact canonical.elim
    | notANumber => exact canonical.elim
    | zero => exact ⟨_, rfl⟩
    | finite => exact ⟨_, rfl⟩
  obtain ⟨sign, zero⟩ := zero
  have rounds : RoundsTo (x / y) 0 := ⟨_, zero, trivial, nearest_zero.symm⟩
  exact rounds.within ⟨representable_zero, representable_zero, le_rfl, le_rfl⟩

theorem sum_cases {xs : List Float} (finite : ∀ x ∈ xs, x.isFinite = true) :
    xs.sum.isFinite = true ∨ Infinite xs.sum := by
  induction xs with
  | nil => exact .inl value_zero.1
  | cons x xs ih =>
    obtain ⟨first, rest⟩ := List.forall_mem_cons.mp finite
    rw [List.sum_cons]
    rcases ih rest with tail | infinite
    · by_cases small : (x + xs.sum).isFinite = true
      · exact .inl small
      · exact .inr ((roundsTo_add first tail).infinite small)
    · exact .inr (infinite_add first infinite)

theorem within_share_of_any {weights : List Float} {most : ℝ}
    (each : ∀ w ∈ weights, Within 0 most w) (some : ¬weights.sum ≤ 0) {w : Float}
    (inside : w ∈ weights) : Within 0 1 (w / weights.sum) := by
  rcases sum_cases fun w inside => (each w inside).finite with finite | infinite
  · rw [le_iff finite value_zero.1, value_zero.2, not_le] at some
    exact within_share (fun w inside => (each w inside).low_le) finite some inside
  · exact (within_div_infinite (each w inside).finite infinite).mono le_rfl zero_le_one

theorem RoundsTo.within_of_nearest {x : Float} {low high r : ℝ} {k : ℤ} (rounds : RoundsTo x r)
    (least : -2 ^ k ≤ low) (most : high ≤ 2 ^ k) (small : k < 1024) (low_le : low ≤ nearest r)
    (le_high : nearest r ≤ high) : Within low high x := by
  have power : (2 : ℝ) ^ k < 2 ^ (1024 : ℤ) := zpow_lt_zpow_right₀ one_lt_two small
  have finite : x.isFinite = true := by
    rw [rounds.isFinite_iff, abs_lt]
    exact ⟨by linarith, by linarith⟩
  refine ⟨finite, ?_, ?_⟩ <;> rwa [rounds.value_eq finite]

theorem nearest_add_quarter {k : ℤ} (least : -1076 ≤ k) :
    nearest (2 ^ (k + 54) + 2 ^ k) = 2 ^ (k + 54) := by
  have place : (0 : ℝ) < 2 ^ (k + 2) := two_zpow_pos _
  have large : (2 : ℝ) ^ (k + 54) = 2 ^ 52 * 2 ^ (k + 2) := by
    rw [show k + 54 = 52 + (k + 2) by ring, zpow_add₀ two_ne_zero]
    norm_num
  have small : (2 : ℝ) ^ k = 1 / 4 * 2 ^ (k + 2) := by
    rw [zpow_add₀ two_ne_zero]
    ring
  have size : |(2 : ℝ) ^ (k + 54) + 2 ^ k| = (2 ^ 52 + 1 / 4) * 2 ^ (k + 2) := by
    rw [large, small, ← add_mul]
    exact abs_of_pos (by positivity)
  have units : ((2 : ℝ) ^ (k + 54) + 2 ^ k) / 2 ^ (k + 2) = (2 ^ 52 : ℤ) + 1 / 4 := by
    rw [large, small, ← add_mul, mul_div_cancel_right₀ _ place.ne']
    norm_num
  have even : toEven ((2 ^ 52 : ℤ) + 1 / 4 : ℝ) = 2 ^ 52 := by
    have floor : ⌊((2 ^ 52 : ℤ) + 1 / 4 : ℝ)⌋ = 2 ^ 52 := by
      rw [Int.floor_intCast_add]
      norm_num
    have fraction : Int.fract ((2 ^ 52 : ℤ) + 1 / 4 : ℝ) = 1 / 4 := by
      rw [Int.fract_intCast_add]
      norm_num
    rw [toEven_of_low (by rw [fraction]; norm_num), floor]
  rw [nearest_eq_of_power (e := k + 2) (by omega), units, even, large]
  · norm_num
  · rw [size, zpow_add₀ two_ne_zero (k + 2) 53, mul_comm]
    exact mul_lt_mul_of_pos_left (by norm_num) place
  · rw [size, zpow_add₀ two_ne_zero (k + 2) 52, mul_comm]
    exact .inr (.inr (mul_le_mul_of_nonneg_right (by norm_num) place.le))

theorem within_sum_of_any {k : ℤ} (least : -1076 ≤ k) (most : k < 970) {xs : List Float}
    (each : ∀ x ∈ xs, Within (-2 ^ k) (2 ^ k) x) :
    Within (-2 ^ (k + 54)) (2 ^ (k + 54)) xs.sum := by
  induction xs with
  | nil =>
    have above : (0 : ℝ) < 2 ^ (k + 54) := two_zpow_pos _
    exact ⟨value_zero.1, value_zero.2 ▸ (neg_neg_of_pos above).le, value_zero.2 ▸ above.le⟩
  | cons x xs ih =>
    obtain ⟨first, rest⟩ := List.forall_mem_cons.mp each
    have tail := ih rest
    rw [List.sum_cons]
    refine (roundsTo_add first.finite tail.finite).within_of_nearest le_rfl le_rfl (by omega) ?_ ?_
    · rw [← nearest_add_quarter least, ← nearest_neg]
      exact nearest_mono (by linarith [first.low_le, tail.low_le])
    · rw [← nearest_add_quarter least]
      exact nearest_mono (by linarith [first.le_high, tail.le_high])

theorem roundsTo_ofNat_of_large {n : ℕ} (large : 2 ^ 53 ≤ n) : RoundsTo (Float.ofNat n) n := by
  have some : 0 < n := by omega
  have slow : Float.ofNat n = .ofModel (.pack (.roundWithAccuracy .binary64 .positive
      ((n <<< 53) * 1) (-53 + 0) .exact)) := by
    have read : Float.ofNat n = .ofModel (.pack (.ofScientific .binary64 n 0)) :=
      dif_neg fun small => small.1.not_ge large
    have exact : UnpackedFloat.ofScientific .binary64 n 0 = _ := dif_neg some.ne'
    rw [read, exact, if_neg (by decide), if_neg (by change ¬(0 : ℤ) < -(2 ^ 11 + _); omega),
      if_pos le_rfl]
    rfl
  have fine : (-53 + 0 : ℤ) ≤ Float.Model.Format.binary64.targetExponent
      (Float.Model.totalExponent ((n <<< 53) * 1) (-53 + 0)) := by
    have bits : (n <<< 53).log2 = n.log2 + 53 := log2_shiftLeft some 53
    rw [targetExponent_eq, Float.Model.totalExponent, mul_one, bits]
    omega
  have spec := roundWithAccuracy_spec .positive (represents_exact ((n <<< 53) * 1)) fine
  have worth : (((n <<< 53) * 1 : ℕ) : ℝ) * 2 ^ (-53 + 0 : ℤ) = n := by
    rw [mul_one, Nat.shiftLeft_eq, add_zero, zpow_neg, ← div_eq_mul_inv,
      div_eq_iff (two_zpow_pos 53).ne']
    push_cast
    norm_num
  rw [worth, factor_positive, one_mul] at spec
  exact ⟨_, slow, spec⟩

theorem ofNat_cases {n : ℕ} (some : 0 < n) :
    (Float.ofNat n).isFinite = true ∧ 1 ≤ value (Float.ofNat n) ∨ Infinite (Float.ofNat n) := by
  have least : (1 : ℝ) ≤ n := by exact_mod_cast some
  by_cases small : n < 2 ^ 53
  · obtain ⟨finite, worth⟩ := value_ofNat small
    exact .inl ⟨finite, worth ▸ least⟩
  · have rounds := roundsTo_ofNat_of_large (not_lt.mp small)
    by_cases finite : (Float.ofNat n).isFinite = true
    · left
      refine ⟨finite, ?_⟩
      rw [rounds.value_eq finite]
      exact le_nearest representable_one.onGrid least
    · exact .inr (rounds.infinite finite)

theorem within_div_ofNat {x : Float} {n : ℕ} {high : ℝ} (some : 0 < n) (within : Within 0 high x) :
    Within 0 high (x / Float.ofNat n) := by
  have most := within.low_le.trans within.le_high
  rcases ofNat_cases some with ⟨finite, least⟩ | infinite
  · have positive : 0 < value (Float.ofNat n) := one_pos.trans_le least
    have quotient : Within 0 (value x) (x / Float.ofNat n) := by
      refine (roundsTo_div within.finite finite positive.ne').within
        ⟨representable_zero, representable_value within.finite, ?_, ?_⟩
      · exact div_nonneg within.low_le positive.le
      · exact div_le_self within.low_le least
    exact quotient.mono le_rfl within.le_high
  · exact (within_div_infinite within.finite infinite).mono le_rfl most

theorem within_rootMeanSquare_of_any {k : ℕ} (small : k ≤ 400) {xs : List Float} (somebody : xs ≠ [])
    (each : ∀ x ∈ xs, Within (-2 ^ (k : ℤ)) (2 ^ (k : ℤ)) x) :
    Within 0 (2 ^ (k + 27 : ℤ)) (rootMeanSquare xs) := by
  have square : (2 : ℝ) ^ (k : ℤ) * 2 ^ (k : ℤ) = 2 ^ (2 * k : ℤ) := by
    rw [← zpow_add₀ two_ne_zero, ← two_mul]
  have most : Representable (2 ^ (2 * k : ℤ)) := representable_two_zpow (by omega) (by omega)
  have squares : ∀ y ∈ xs.map fun x => x * x, Within 0 (2 ^ (2 * k : ℤ)) y := by
    refine List.forall_mem_map.mpr fun x inside => ?_
    have bounded := each x inside
    refine (roundsTo_mul bounded.finite bounded.finite).within
      ⟨representable_zero, most, mul_self_nonneg _, ?_⟩
    rw [← square]
    exact mul_self_le_mul_self_of_le_of_neg_le bounded.le_high (by linarith [bounded.low_le])
  have sum : Within 0 (2 ^ (2 * k + 54 : ℤ)) (xs.map fun x => x * x).sum := by
    have bounded := within_sum_of_any (by omega) (by omega) fun y inside =>
      (squares y inside).mono (neg_nonpos.mpr (two_zpow_pos _).le) le_rfl
    refine ⟨bounded.finite, ?_, bounded.le_high⟩
    rw [(value_sum bounded.finite).2]
    exact sumNearest_nonneg (List.forall_mem_map.mpr fun y inside => (squares y inside).low_le)
  have mean := within_div_ofNat (List.length_pos_iff.mpr somebody) sum
  refine (roundsTo_sqrt mean.finite mean.low_le).within
    ⟨representable_zero, representable_two_zpow (by omega) (by omega), Real.sqrt_nonneg _, ?_⟩
  refine Real.sqrt_le_iff.mpr ⟨(two_zpow_pos _).le, mean.le_high.trans (le_of_eq ?_)⟩
  rw [sq, ← zpow_add₀ two_ne_zero]
  congr 1
  ring

end RoundScoring.Binary64
