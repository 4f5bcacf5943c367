import RoundScoring.Binary64.Rounding
import RoundScoring.Proofs.Binary64.Packing

/-!
Arithmetic of finite numbers. Every operation returns the exact result rounded, as long as that is
below the power of two that is too large; so a result lies between any two numbers that the exact
result lies between (`Within`).
-/

namespace RoundScoring.Binary64

open Float.Model (Format UnpackedFloat)
open Float.Model.UnpackedFloat (Sign)

noncomputable def value (x : Float) : ℝ := valueOf x.toModel.unpack

/-- The reals that are numbers. -/
structure Representable (r : ℝ) : Prop where
  onGrid : OnGrid r
  small : |r| < 2 ^ (1024 : ℤ)

structure Within (low high : ℝ) (x : Float) : Prop where
  finite : x.isFinite = true
  low_le : low ≤ value x
  le_high : value x ≤ high

theorem canonical_of_isFinite {x : Float} (finite : x.isFinite = true) :
    Canonical x.toModel.unpack := (canonical_unpack finite).1

theorem representable_value {x : Float} (finite : x.isFinite = true) : Representable (value x) := by
  obtain ⟨canonical, fits⟩ := canonical_unpack finite
  exact ⟨canonical.onGrid, (fits_iff canonical).mp fits⟩

theorem le_iff_compare {x y : Float} :
    x ≤ y ↔ (UnpackedFloat.compare x.toModel.unpack y.toModel.unpack).any (·.isLE) = true :=
  decide_eq_true_iff

theorem le_iff {x y : Float} (left : x.isFinite = true) (right : y.isFinite = true) :
    x ≤ y ↔ value x ≤ value y := by
  have compared := compare_spec (canonical_of_isFinite left) (canonical_of_isFinite right)
  rw [le_iff_compare, compared]
  change (cmp (value x) (value y)).isLE = true ↔ _
  rcases lt_trichotomy (value x) (value y) with below | same | above
  · rw [(cmp_eq_lt_iff _ _).mpr below]
    exact ⟨fun _ => below.le, fun _ => rfl⟩
  · rw [same, cmp_self_eq_eq]
    exact ⟨fun _ => le_rfl, fun _ => rfl⟩
  · rw [(cmp_eq_gt_iff _ _).mpr above]
    exact ⟨fun absurd => by contradiction, fun ordered => (above.not_ge ordered).elim⟩

theorem lt_iff {x y : Float} (left : x.isFinite = true) (right : y.isFinite = true) :
    x < y ↔ value x < value y := by
  have compared := compare_spec (canonical_of_isFinite left) (canonical_of_isFinite right)
  have unfolded : x < y ↔
      (UnpackedFloat.compare x.toModel.unpack y.toModel.unpack == some .lt) = true :=
    decide_eq_true_iff
  rw [unfolded, compared]
  change (some (cmp (value x) (value y)) == some .lt) = true ↔ _
  rw [beq_iff_eq, Option.some.injEq, cmp_eq_lt_iff]

structure Bracketed (low high r : ℝ) : Prop where
  least : Representable low
  greatest : Representable high
  low_le : low ≤ r
  le_high : r ≤ high

theorem Bracketed.small {low high r : ℝ} (bracketed : Bracketed low high r) :
    |nearest r| < 2 ^ (1024 : ℤ) := by
  have above := le_nearest bracketed.least.onGrid bracketed.low_le
  have below := nearest_le bracketed.greatest.onGrid bracketed.le_high
  have first := abs_lt.mp bracketed.least.small
  have second := abs_lt.mp bracketed.greatest.small
  exact abs_lt.mpr ⟨first.1.trans_le above, below.trans_lt second.2⟩

/-- The number that a real is rounded to, which is infinite when it is too large. -/
def RoundsTo (x : Float) (r : ℝ) : Prop :=
  ∃ u, x = Float.ofModel (.pack u) ∧ Canonical u ∧ valueOf u = nearest r

namespace RoundsTo

variable {x : Float} {r : ℝ} (rounds : RoundsTo x r)

include rounds

theorem isFinite_iff : x.isFinite = true ↔ |nearest r| < 2 ^ (1024 : ℤ) := by
  obtain ⟨u, rfl, canonical, worth⟩ := rounds
  rw [← worth, ← fits_iff canonical]
  change (Float.Model.pack u).unpack.isFinite = true ↔ _
  by_cases fits : Fits u
  · rw [unpack_pack canonical fits]
    cases u with
    | infinity => exact canonical.elim
    | notANumber => exact canonical.elim
    | zero => exact ⟨fun _ => fits, fun _ => rfl⟩
    | finite => exact ⟨fun _ => fits, fun _ => rfl⟩
  · obtain ⟨sign, infinite⟩ := unpack_pack_of_not_fits fits
    rw [infinite]
    exact ⟨fun absurd => by contradiction, fun absurd => (fits absurd).elim⟩

theorem value_eq (finite : x.isFinite = true) : value x = nearest r := by
  have small := rounds.isFinite_iff.mp finite
  obtain ⟨u, rfl, canonical, worth⟩ := rounds
  rw [← worth] at small ⊢
  exact congrArg valueOf (unpack_pack canonical ((fits_iff canonical).mpr small))

theorem within {low high : ℝ} (bracketed : Bracketed low high r) : Within low high x := by
  have finite := rounds.isFinite_iff.mpr bracketed.small
  refine ⟨finite, ?_, ?_⟩ <;> rw [rounds.value_eq finite]
  · exact le_nearest bracketed.least.onGrid bracketed.low_le
  · exact nearest_le bracketed.greatest.onGrid bracketed.le_high

theorem eq_of_representable (representable : Representable r) :
    x.isFinite = true ∧ value x = r := by
  have same := representable.onGrid.nearest_eq
  have finite := rounds.isFinite_iff.mpr (by rw [same]; exact representable.small)
  exact ⟨finite, (rounds.value_eq finite).trans same⟩

end RoundsTo

section Operations

variable {x y : Float} (left : x.isFinite = true) (right : y.isFinite = true)

include left right

theorem roundsTo_add : RoundsTo (x + y) (value x + value y) :=
  ⟨_, rfl, add_spec (canonical_of_isFinite left) (canonical_of_isFinite right)⟩

theorem roundsTo_sub : RoundsTo (x - y) (value x - value y) :=
  ⟨_, rfl, sub_spec (canonical_of_isFinite left) (canonical_of_isFinite right)⟩

theorem roundsTo_mul : RoundsTo (x * y) (value x * value y) :=
  ⟨_, rfl, mul_spec (canonical_of_isFinite left) (canonical_of_isFinite right)⟩

theorem roundsTo_div (nonzero : value y ≠ 0) : RoundsTo (x / y) (value x / value y) :=
  ⟨_, rfl, div_spec (canonical_of_isFinite left) (canonical_of_isFinite right) nonzero⟩

omit right

theorem roundsTo_sqrt (nonneg : 0 ≤ value x) : RoundsTo x.sqrt √(value x) :=
  ⟨_, rfl, sqrt_spec (canonical_of_isFinite left) nonneg⟩

end Operations

theorem value_of_content {x : Float} {negative : Bool} {m : ℕ} {e : ℤ}
    (known : content x = .finite negative m e) :
    x.isFinite = true ∧ value x = (if negative then -1 else 1) * (m * 2 ^ e) := by
  unfold content at known
  split at known
  next => contradiction
  next => contradiction
  next sign unpacked =>
    cases known
    constructor
    · change x.toModel.unpack.isFinite = true
      rw [unpacked]
      rfl
    · unfold value
      rw [unpacked, Nat.cast_zero, zero_mul, mul_zero]
      rfl
  next sign significand exponent positive unpacked =>
    cases known
    constructor
    · change x.toModel.unpack.isFinite = true
      rw [unpacked]
      rfl
    · unfold value
      rw [unpacked]
      cases sign <;> rfl

theorem roundsTo_ofQuotient (negative : Bool) (m : ℕ) {n : ℕ} (positive : 0 < n) :
    RoundsTo (ofQuotient negative m n) ((if negative then -1 else 1) * (m / n)) := by
  unfold ofQuotient
  by_cases above : 0 < m ∧ 0 < n
  · rw [dif_pos above]
    refine ⟨_, rfl, ?_⟩
    have spec (sign : Sign) := div_finite_spec sign .positive 0 0 above.1 above.2
    simp only [zpow_zero, mul_one, ← nearest_factor, factor_div, factor_positive, div_one] at spec
    cases negative with
    | false => exact spec .positive
    | true => exact spec .negative
  · have zero : m = 0 := by omega
    rw [dif_neg above, zero, Nat.cast_zero, zero_div, mul_zero]
    exact ⟨_, rfl, trivial, nearest_zero.symm⟩

theorem value_one : (1 : Float).isFinite = true ∧ value 1 = 1 := by
  have known : content 1 = .finite false (2 ^ 52) (-52) := by decide
  obtain ⟨finite, worth⟩ := value_of_content known
  refine ⟨finite, worth.trans ?_⟩
  norm_num

theorem representable_dyadic {k e : ℤ} (few : |k| ≤ 2 ^ 53) (least : -1074 ≤ e) (most : e ≤ 970) :
    Representable (k * 2 ^ e) := by
  refine ⟨⟨k, e, few, least, rfl⟩, ?_⟩
  have cast : |(k : ℝ)| ≤ 2 ^ (53 : ℤ) := by exact_mod_cast few
  rw [abs_mul, abs_of_pos (two_zpow_pos e)]
  calc |(k : ℝ)| * 2 ^ e ≤ 2 ^ (53 : ℤ) * 2 ^ e :=
        mul_le_mul_of_nonneg_right cast (two_zpow_pos e).le
    _ = 2 ^ (53 + e) := (zpow_add₀ two_ne_zero _ _).symm
    _ < 2 ^ (1024 : ℤ) := zpow_lt_zpow_right₀ one_lt_two (by omega)

theorem Representable.neg {r : ℝ} (representable : Representable r) : Representable (-r) :=
  ⟨representable.onGrid.neg, by rw [abs_neg]; exact representable.small⟩

theorem representable_two_zpow {k : ℤ} (least : -1074 ≤ k) (most : k ≤ 1023) :
    Representable (2 ^ k) := by
  refine ⟨⟨1, k, by norm_num, least, by rw [Int.cast_one, one_mul]⟩, ?_⟩
  rw [abs_of_pos (two_zpow_pos k)]
  exact zpow_lt_zpow_right₀ one_lt_two (by omega)

theorem representable_intCast {k : ℤ} (few : |k| ≤ 2 ^ 53) : Representable k := by
  have dyadic := representable_dyadic (e := 0) few (by norm_num) (by norm_num)
  rwa [zpow_zero, mul_one] at dyadic

theorem representable_natCast {n : ℕ} (few : n ≤ 2 ^ 53) : Representable n := by
  have whole := representable_intCast (k := n) (by rw [Nat.abs_cast]; exact_mod_cast few)
  rwa [Int.cast_natCast] at whole

theorem representable_div_sixteen {k : ℤ} (few : |k| ≤ 2 ^ 53) : Representable (k / 16) := by
  have dyadic := representable_dyadic (e := -4) few (by norm_num) (by norm_num)
  rwa [zpow_neg, ← div_eq_mul_inv, show (2 : ℝ) ^ (4 : ℤ) = 16 by norm_num] at dyadic

theorem value_ofNat {n : ℕ} (small : n < 2 ^ 53) :
    (Float.ofNat n).isFinite = true ∧ value (Float.ofNat n) = n := by
  have fast : Float.ofNat n = n.toUInt64.toFloat * Float.ofBits 0x3FF0000000000000 := by
    unfold Float.ofNat
    exact dif_pos ⟨small, by norm_num⟩
  have unit : content (Float.ofBits 0x3FF0000000000000) = .finite false (2 ^ 52) (-52) := by
    decide
  obtain ⟨finite, worth⟩ := value_of_content unit
  have one : value (Float.ofBits 0x3FF0000000000000) = 1 := worth.trans (by norm_num)
  have same : ((n.toUInt64.toNat : ℤ) : ℝ) = n := by
    rw [Int.cast_natCast, show n.toUInt64.toNat = n from Nat.mod_eq_of_lt (small.trans (by norm_num))]
  have exactly := representable_natCast small.le
  have rounds : RoundsTo n.toUInt64.toFloat n := by
    have spec := normalize_spec (n.toUInt64.toNat : ℤ) 0 .positive
    rw [zpow_zero, mul_one, same] at spec
    exact ⟨_, rfl, spec⟩
  obtain ⟨whole, equal⟩ := rounds.eq_of_representable exactly
  have product := roundsTo_mul whole finite
  rw [equal, one, mul_one] at product
  rw [fast]
  exact product.eq_of_representable exactly

end RoundScoring.Binary64
