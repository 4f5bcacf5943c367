import Mathlib.Data.Int.Log
import Mathlib.Algebra.Order.Archimedean.Real.Basic
import Mathlib.Tactic.Linarith

/-!
Rounding of reals to numbers with fifty-three bits, of which the even one is taken of two that are
equally near. The least power is that of the format, and there is no largest one: whether a number
is too large is asked of the rounded one. Rounding keeps order, and changes a number in the normal
range by little of itself.
-/

namespace RoundScoring.Binary64

/-- The nearest whole number, and the even one of two that are equally near. -/
noncomputable def toEven (x : ℝ) : ℤ :=
  if Int.fract x < 1 - Int.fract x then ⌊x⌋
  else if 1 - Int.fract x < Int.fract x then ⌊x⌋ + 1
  else ⌊x⌋ + ⌊x⌋ % 2

theorem toEven_of_low {x : ℝ} (low : Int.fract x < 1 / 2) : toEven x = ⌊x⌋ :=
  if_pos (by linarith)

theorem toEven_of_high {x : ℝ} (high : 1 / 2 < Int.fract x) : toEven x = ⌊x⌋ + 1 := by
  unfold toEven
  rw [if_neg (by linarith), if_pos (by linarith)]

theorem toEven_of_half {x : ℝ} (half : Int.fract x = 1 / 2) : toEven x = ⌊x⌋ + ⌊x⌋ % 2 := by
  unfold toEven
  rw [if_neg (by linarith), if_neg (by linarith)]

theorem floor_le_toEven (x : ℝ) : ⌊x⌋ ≤ toEven x := by
  unfold toEven
  split_ifs <;> omega

theorem toEven_le_floor_add_one (x : ℝ) : toEven x ≤ ⌊x⌋ + 1 := by
  unfold toEven
  split_ifs <;> omega

@[simp] theorem toEven_intCast (k : ℤ) : toEven k = k := by
  simp [toEven]

theorem toEven_mono {x y : ℝ} (ordered : x ≤ y) : toEven x ≤ toEven y := by
  rcases (Int.floor_le_floor ordered).eq_or_lt with same | below
  · have fractions : Int.fract x ≤ Int.fract y := by
      unfold Int.fract
      rw [same]
      linarith
    unfold toEven
    rw [same]
    split_ifs <;> first | omega | linarith
  · have first := toEven_le_floor_add_one x
    have second := floor_le_toEven y
    omega

theorem abs_toEven_sub_le (x : ℝ) : |(toEven x : ℝ) - x| ≤ 1 / 2 := by
  have parts := Int.floor_add_fract x
  have nonneg := Int.fract_nonneg x
  have below := Int.fract_lt_one x
  unfold toEven
  rw [abs_le]
  split_ifs with low high
  · constructor <;> linarith
  · push_cast
    constructor <;> linarith
  · have half : Int.fract x = 1 / 2 := by linarith
    rcases Int.emod_two_eq_zero_or_one ⌊x⌋ with even | odd
    · rw [even]
      push_cast
      constructor <;> linarith
    · rw [odd]
      push_cast
      constructor <;> linarith

@[simp] theorem toEven_neg (x : ℝ) : toEven (-x) = -toEven x := by
  by_cases whole : Int.fract x = 0
  · obtain ⟨k, rfl⟩ := Int.fract_eq_zero_iff.mp whole
    rw [← Int.cast_neg, toEven_intCast, toEven_intCast]
  · have fraction : Int.fract (-x) = 1 - Int.fract x := Int.fract_neg whole
    have floors : ⌊-x⌋ = -⌊x⌋ - 1 := by
      have left := Int.floor_add_fract x
      have right := Int.floor_add_fract (-x)
      have : (⌊-x⌋ : ℝ) = ((-⌊x⌋ - 1 : ℤ) : ℝ) := by
        push_cast
        linarith
      exact_mod_cast this
    unfold toEven
    rw [fraction, floors]
    split_ifs <;> first | omega | linarith

/-- The power of two of the units that a real is rounded to. -/
noncomputable def unitPower (x : ℝ) : ℤ := max (Int.log 2 |x| - 52) (-1074)

/-- A real rounded to binary64, as if there were no largest number. -/
noncomputable def nearest (x : ℝ) : ℝ :=
  toEven (x / ((2 : ℕ) : ℝ) ^ unitPower x) * ((2 : ℕ) : ℝ) ^ unitPower x

theorem nearest_def (x : ℝ) : nearest x = toEven (x / 2 ^ unitPower x) * 2 ^ unitPower x := rfl

/-- The reals that rounding leaves as they are: few enough units of a power of two that is not below
the least one. -/
structure OnGrid (x : ℝ) : Prop where
  units : ∃ k e : ℤ, |k| ≤ 2 ^ 53 ∧ -1074 ≤ e ∧ x = k * 2 ^ e

theorem two_zpow_pos (e : ℤ) : (0 : ℝ) < 2 ^ e := zpow_pos two_pos e

theorem unitPower_ge (x : ℝ) : -1074 ≤ unitPower x := le_max_right _ _

@[simp] theorem unitPower_neg (x : ℝ) : unitPower (-x) = unitPower x := by
  unfold unitPower
  rw [abs_neg]

theorem abs_lt_unitPower (x : ℝ) : |x| < 2 ^ (unitPower x + 53) := by
  have log : |x| < (2 : ℝ) ^ (Int.log 2 |x| + 1) := by
    exact_mod_cast Int.lt_zpow_succ_log_self one_lt_two |x|
  refine log.trans_le (zpow_le_zpow_right₀ one_le_two ?_)
  unfold unitPower
  omega

theorem unitPower_le {x : ℝ} {e : ℤ} (least : -1074 ≤ e) (nonzero : x ≠ 0)
    (below : |x| < 2 ^ (e + 53)) : unitPower x ≤ e := by
  have log := (Int.lt_zpow_iff_log_lt one_lt_two (abs_pos.mpr nonzero)).mp (by exact_mod_cast below)
  unfold unitPower
  omega

theorem le_abs_of_unitPower {x : ℝ} (nonzero : x ≠ 0) (normal : -1074 < unitPower x) :
    2 ^ (unitPower x + 52) ≤ |x| := by
  have power : unitPower x + 52 = Int.log 2 |x| := by
    unfold unitPower at normal ⊢
    omega
  rw [power]
  exact_mod_cast Int.zpow_log_le_self one_lt_two (abs_pos.mpr nonzero)

theorem unitPower_eq {x : ℝ} {e : ℤ} (nonzero : x ≠ 0) (least : -1074 ≤ e)
    (below : |x| < 2 ^ (e + 53)) (normal : e = -1074 ∨ 2 ^ (e + 52) ≤ |x|) : unitPower x = e := by
  have upper := unitPower_le least nonzero below
  have lower := unitPower_ge x
  rcases normal with rfl | above
  · omega
  · have log := (Int.zpow_le_iff_le_log one_lt_two (abs_pos.mpr nonzero)).mp
      (by exact_mod_cast above)
    unfold unitPower at upper ⊢
    omega

@[simp] theorem nearest_neg (x : ℝ) : nearest (-x) = -nearest x := by
  rw [nearest_def, nearest_def, unitPower_neg, neg_div, toEven_neg]
  push_cast
  ring

@[simp] theorem nearest_zero : nearest 0 = 0 := by
  rw [nearest_def, zero_div, ← Int.cast_zero, toEven_intCast]
  simp

theorem nearest_eq_of_power {x : ℝ} {e : ℤ} (least : -1074 ≤ e) (below : |x| < 2 ^ (e + 53))
    (normal : x = 0 ∨ e = -1074 ∨ 2 ^ (e + 52) ≤ |x|) : nearest x = toEven (x / 2 ^ e) * 2 ^ e := by
  by_cases zero : x = 0
  · rw [zero, nearest_zero, zero_div, ← Int.cast_zero, toEven_intCast, Int.cast_zero, zero_mul]
  · rw [nearest_def, unitPower_eq zero least below (normal.resolve_left zero)]

theorem OnGrid.neg {x : ℝ} : OnGrid x → OnGrid (-x) := by
  rintro ⟨k, e, few, least, rfl⟩
  exact ⟨-k, e, by rwa [abs_neg], least, by push_cast; ring⟩

theorem OnGrid.nearest_eq {x : ℝ} (grid : OnGrid x) : nearest x = x := by
  -- as many units as there can be are half as many of the next power of two
  obtain ⟨k, e, few, least, rfl⟩ : ∃ k e : ℤ, |k| < 2 ^ 53 ∧ -1074 ≤ e ∧ x = k * 2 ^ e := by
    obtain ⟨k, e, few, least, same⟩ := grid
    rcases few.lt_or_eq with less | all
    · exact ⟨k, e, less, least, same⟩
    · have twice : k = k / 2 * 2 := by
        rcases abs_choice k with positive | negative <;> omega
      refine ⟨k / 2, e + 1, ?_, by omega, ?_⟩
      · rw [abs_lt]
        rcases abs_choice k with positive | negative <;> omega
      · rw [same, zpow_add_one₀ two_ne_zero]
        conv_lhs => rw [twice]
        push_cast
        ring
  by_cases zero : (k : ℝ) * 2 ^ e = 0
  · rw [zero, nearest_zero]
  have small : |(k : ℝ) * 2 ^ e| < 2 ^ (e + 53) := by
    rw [abs_mul, abs_of_pos (two_zpow_pos e), zpow_add₀ two_ne_zero, mul_comm]
    have cast : |(k : ℝ)| < 2 ^ (53 : ℤ) := by exact_mod_cast few
    exact mul_lt_mul_of_pos_left cast (two_zpow_pos e)
  have power := unitPower_le least zero small
  have whole : (k : ℝ) * 2 ^ e / 2 ^ unitPower ((k : ℝ) * 2 ^ e) =
      ((k * 2 ^ (e - unitPower ((k : ℝ) * 2 ^ e)).toNat : ℤ) : ℝ) := by
    push_cast
    rw [← zpow_natCast, Int.toNat_of_nonneg (by omega), mul_div_assoc, ← zpow_sub₀ two_ne_zero]
  rw [nearest_def, whole, toEven_intCast, ← whole, div_mul_cancel₀ _ (two_zpow_pos _).ne']

theorem abs_toEven_units_le {x : ℝ} {e : ℤ} (below : |x| < 2 ^ (e + 53)) :
    |toEven (x / 2 ^ e)| ≤ 2 ^ 53 := by
  have bound : |x / 2 ^ e| < (2 ^ 53 : ℤ) := by
    rw [abs_div, abs_of_pos (two_zpow_pos _), div_lt_iff₀ (two_zpow_pos _)]
    rw [zpow_add₀ two_ne_zero, mul_comm] at below
    exact_mod_cast below
  have least : ((-2 ^ 53 : ℤ) : ℝ) ≤ x / 2 ^ e := by
    push_cast at bound ⊢
    exact (abs_lt.mp bound).1.le
  rw [abs_le]
  exact ⟨by simpa only [toEven_intCast] using toEven_mono least,
    by simpa only [toEven_intCast] using toEven_mono (abs_lt.mp bound).2.le⟩

theorem le_toEven_units {x : ℝ} {e : ℤ} (above : 2 ^ (e + 52) ≤ x) :
    2 ^ 52 ≤ toEven (x / 2 ^ e) := by
  have bound : ((2 ^ 52 : ℤ) : ℝ) ≤ x / 2 ^ e := by
    rw [zpow_add₀ two_ne_zero] at above
    rw [le_div_iff₀ (two_zpow_pos _), mul_comm]
    exact_mod_cast above
  exact (toEven_intCast _).symm.le.trans (toEven_mono bound)

theorem onGrid_nearest (x : ℝ) : OnGrid (nearest x) :=
  ⟨_, unitPower x, abs_toEven_units_le (abs_lt_unitPower x), unitPower_ge x, rfl⟩

theorem nearest_nonneg {x : ℝ} (nonneg : 0 ≤ x) : 0 ≤ nearest x := by
  have units := toEven_mono (div_nonneg nonneg (two_zpow_pos (unitPower x)).le)
  rw [← Int.cast_zero, toEven_intCast] at units
  exact mul_nonneg (by exact_mod_cast units) (two_zpow_pos _).le

/-- A larger unit is only taken from where the smaller one goes to. -/
theorem nearest_mono_of_nonneg {x y : ℝ} (nonneg : 0 ≤ x) (ordered : x ≤ y) :
    nearest x ≤ nearest y := by
  rcases nonneg.eq_or_lt with rfl | positive
  · rw [nearest_zero]
    exact nearest_nonneg ordered
  have above := positive.trans_le ordered
  have powers : unitPower x ≤ unitPower y := by
    refine unitPower_le (unitPower_ge y) positive.ne' ?_
    rw [abs_of_pos positive]
    refine ordered.trans_lt ?_
    simpa only [abs_of_pos above] using abs_lt_unitPower y
  rcases powers.eq_or_lt with same | larger
  · rw [nearest_def, nearest_def, same]
    have units := toEven_mono (div_le_div_of_nonneg_right ordered (two_zpow_pos (unitPower y)).le)
    exact mul_le_mul_of_nonneg_right (by exact_mod_cast units) (two_zpow_pos _).le
  · have few : (toEven (x / 2 ^ unitPower x) : ℝ) ≤ 2 ^ (53 : ℤ) := by
      exact_mod_cast (le_abs_self _).trans (abs_toEven_units_le (abs_lt_unitPower x))
    have normal := le_abs_of_unitPower above.ne' ((unitPower_ge x).trans_lt larger)
    rw [abs_of_pos above] at normal
    have many : (2 : ℝ) ^ (52 : ℤ) ≤ toEven (y / 2 ^ unitPower y) := by
      exact_mod_cast le_toEven_units normal
    calc nearest x ≤ 2 ^ (53 : ℤ) * 2 ^ unitPower x :=
          mul_le_mul_of_nonneg_right few (two_zpow_pos _).le
      _ = 2 ^ (unitPower x + 53) := by rw [zpow_add₀ two_ne_zero, mul_comm]
      _ ≤ 2 ^ (unitPower y + 52) := zpow_le_zpow_right₀ one_le_two (by omega)
      _ = 2 ^ (52 : ℤ) * 2 ^ unitPower y := by rw [zpow_add₀ two_ne_zero, mul_comm]
      _ ≤ nearest y := mul_le_mul_of_nonneg_right many (two_zpow_pos _).le

theorem nearest_mono {x y : ℝ} (ordered : x ≤ y) : nearest x ≤ nearest y := by
  rcases le_total 0 x with nonneg | negative
  · exact nearest_mono_of_nonneg nonneg ordered
  rcases le_total 0 y with above | below
  · have first := nearest_nonneg (neg_nonneg.mpr negative)
    rw [nearest_neg] at first
    have second := nearest_nonneg above
    linarith
  · have reversed := nearest_mono_of_nonneg (neg_nonneg.mpr below) (neg_le_neg ordered)
    rwa [nearest_neg, nearest_neg, neg_le_neg_iff] at reversed

theorem nearest_le {x bound : ℝ} (grid : OnGrid bound) (ordered : x ≤ bound) :
    nearest x ≤ bound := by
  rw [← grid.nearest_eq]
  exact nearest_mono ordered

theorem le_nearest {x bound : ℝ} (grid : OnGrid bound) (ordered : bound ≤ x) :
    bound ≤ nearest x := by
  rw [← grid.nearest_eq]
  exact nearest_mono ordered

theorem abs_nearest_sub_le (x : ℝ) : |nearest x - x| ≤ 2 ^ unitPower x / 2 := by
  have units := abs_toEven_sub_le (x / 2 ^ unitPower x)
  have scaled : nearest x - x =
      (toEven (x / 2 ^ unitPower x) - x / 2 ^ unitPower x) * 2 ^ unitPower x := by
    rw [nearest_def, sub_mul, div_mul_cancel₀ _ (two_zpow_pos _).ne']
  rw [scaled, abs_mul, abs_of_pos (two_zpow_pos _)]
  nlinarith [two_zpow_pos (unitPower x)]

theorem abs_nearest_sub_le_mul {x : ℝ} (normal : 2 ^ (-1022 : ℤ) ≤ |x|) :
    |nearest x - x| ≤ 2 ^ (-53 : ℤ) * |x| := by
  have nonzero : x ≠ 0 := abs_pos.mp ((two_zpow_pos _).trans_le normal)
  have log : -1022 ≤ Int.log 2 |x| := by
    refine (Int.zpow_le_iff_le_log one_lt_two (abs_pos.mpr nonzero)).mp ?_
    exact_mod_cast normal
  have power : unitPower x = Int.log 2 |x| - 52 := max_eq_left (by omega)
  have size : (2 : ℝ) ^ Int.log 2 |x| ≤ |x| := by
    exact_mod_cast Int.zpow_log_le_self one_lt_two (abs_pos.mpr nonzero)
  calc |nearest x - x| ≤ 2 ^ unitPower x / 2 := abs_nearest_sub_le x
    _ = 2 ^ (-53 : ℤ) * 2 ^ Int.log 2 |x| := by
      rw [power, ← zpow_add₀ two_ne_zero, div_eq_mul_inv, ← zpow_neg_one, ← zpow_add₀ two_ne_zero]
      congr 1
      ring
    _ ≤ 2 ^ (-53 : ℤ) * |x| := mul_le_mul_of_nonneg_left size (two_zpow_pos _).le

theorem nearest_whole {k : ℤ} (small : |(k : ℝ) * 2 ^ (-1074 : ℤ)| < 2 ^ (-1022 : ℤ)) :
    nearest (k * 2 ^ (-1074 : ℤ)) = k * 2 ^ (-1074 : ℤ) := by
  refine OnGrid.nearest_eq ⟨k, -1074, ?_, le_rfl, rfl⟩
  rw [abs_mul, abs_of_pos (two_zpow_pos _), ← lt_div_iff₀ (two_zpow_pos _),
    ← zpow_sub₀ two_ne_zero, show (-1022 - -1074 : ℤ) = 52 by norm_num] at small
  have few : |k| < 2 ^ 52 := by exact_mod_cast small
  omega

theorem nearest_pos {x : ℝ} (above : 2 ^ (-1075 : ℤ) < x) : 0 < nearest x := by
  have half : (2 : ℝ) ^ (-1074 : ℤ) = 2 * 2 ^ (-1075 : ℤ) := by
    rw [← zpow_one_add₀ two_ne_zero]
    norm_num
  rcases le_or_gt (2 ^ (-1074 : ℤ)) x with large | small
  · have grid : OnGrid (2 ^ (-1074 : ℤ)) := ⟨1, -1074, by norm_num, le_rfl, by simp⟩
    exact (two_zpow_pos _).trans_le (le_nearest grid large)
  · have positive : 0 < x := (two_zpow_pos _).trans above
    have below : |x| < 2 ^ ((-1074 : ℤ) + 53) := by
      rw [abs_of_pos positive]
      exact small.trans (zpow_lt_zpow_right₀ one_lt_two (by norm_num))
    have units : 1 / 2 < x / 2 ^ (-1074 : ℤ) := by
      rw [lt_div_iff₀ (two_zpow_pos _), half]
      linarith
    have fewer : x / 2 ^ (-1074 : ℤ) < 1 := (div_lt_one (two_zpow_pos _)).mpr small
    have floor : ⌊x / 2 ^ (-1074 : ℤ)⌋ = 0 := by
      rw [Int.floor_eq_zero_iff]
      exact ⟨by linarith, fewer⟩
    have fraction : Int.fract (x / 2 ^ (-1074 : ℤ)) = x / 2 ^ (-1074 : ℤ) := by
      rw [Int.fract, floor, Int.cast_zero, sub_zero]
    have high : 1 / 2 < Int.fract (x / 2 ^ (-1074 : ℤ)) := by rwa [fraction]
    rw [nearest_eq_of_power le_rfl below (.inr (.inl rfl)), toEven_of_high high, floor]
    simp

end RoundScoring.Binary64
