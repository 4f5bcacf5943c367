import Mathlib
import RoundScoring.Proofs.Binary64.Nearest

/-!
What unpacked numbers are worth, and what the model's rounding of them does. It keeps a significand
with two bits for all that is behind it, shifts them to the units of the result and rounds there;
`roundWithAccuracy_spec` says that this is `nearest`, on whatever real the significand and the bits
stand for.
-/

namespace RoundScoring.Binary64

open Float.Model (Format UnpackedFloat totalExponent)
open Float.Model.UnpackedFloat

def factor : Sign → ℝ
  | .negative => -1
  | .positive => 1

noncomputable def valueOf : UnpackedFloat → ℝ
  | .finite sign m e _ => factor sign * (m * ((2 : ℕ) : ℝ) ^ e)
  | _ => 0

theorem valueOf_finite (sign : Sign) (m : ℕ) (e : ℤ) (positive : 0 < m) :
    valueOf (.finite sign m e positive) = factor sign * (m * 2 ^ e) := rfl

/-- A finite number in the form that packing expects and unpacking returns. -/
def Canonical : UnpackedFloat → Prop
  | .zero _ => True
  | .finite _ m e _ => m < 2 ^ 53 ∧ -1074 ≤ e ∧ (2 ^ 52 ≤ m ∨ e = -1074)
  | _ => False

/-- The significand is the whole part of a real, and the bits say where the rest is: whether it is a
half or more, and whether it is something else than nothing and a half. -/
structure Represents (em : ExtendedMantissa) (x : ℝ) : Prop where
  floor : ⌊x⌋ = em.mantissa
  round : em.roundBit = true ↔ 1 / 2 ≤ Int.fract x
  sticky : em.stickyBit = true ↔ Int.fract x ≠ 0 ∧ Int.fract x ≠ 1 / 2

theorem Represents.roundedMantissa {em : ExtendedMantissa} {x : ℝ} (represents : Represents em x) :
    em.roundedMantissa = toEven x := by
  obtain ⟨m, round, sticky⟩ := em
  obtain ⟨floor, roundIff, stickyIff⟩ := represents
  have nonneg := Int.fract_nonneg x
  dsimp only at floor roundIff stickyIff
  cases round
  · have low : Int.fract x < 1 / 2 := by simpa using roundIff
    rw [toEven_of_low low, floor]
    cases sticky <;> rfl
  · have high : 1 / 2 ≤ Int.fract x := by simpa using roundIff
    cases sticky
    · have half : Int.fract x = 1 / 2 := by
        by_contra off
        have both : Int.fract x ≠ 0 ∧ Int.fract x ≠ 1 / 2 := ⟨by linarith, off⟩
        simpa using stickyIff.mpr both
      rw [toEven_of_half half, floor]
      rfl
    · have above : 1 / 2 < Int.fract x := high.lt_of_ne' (stickyIff.mp rfl).2
      rw [toEven_of_high above, floor]
      rfl

theorem Represents.shiftRightOne {em : ExtendedMantissa} {x : ℝ} (represents : Represents em x) :
    Represents em.shiftRightOne (x / 2) := by
  obtain ⟨m, round, sticky⟩ := em
  obtain ⟨floor, roundIff, stickyIff⟩ := represents
  dsimp only at floor roundIff stickyIff
  have parts := Int.floor_add_fract x
  have nonneg := Int.fract_nonneg x
  have below := Int.fract_lt_one x
  have halves : (m : ℝ) = 2 * (m / 2 : ℕ) + (m % 2 : ℕ) := by
    exact_mod_cast (Nat.div_add_mod m 2).symm
  rw [floor, Int.cast_natCast, halves] at parts
  have whole : ⌊x / 2⌋ = (m / 2 : ℕ) := by
    rw [Int.floor_eq_iff, Int.cast_natCast]
    have bit : ((m % 2 : ℕ) : ℝ) ≤ 1 := by exact_mod_cast Nat.lt_succ_iff.mp (Nat.mod_lt m two_pos)
    constructor <;> linarith [Nat.cast_nonneg (α := ℝ) (m % 2)]
  have rest : Int.fract (x / 2) = ((m % 2 : ℕ) + Int.fract x) / 2 := by
    have sum := Int.floor_add_fract (x / 2)
    rw [whole, Int.cast_natCast] at sum
    linarith
  have some : (round || sticky) = true ↔ Int.fract x ≠ 0 := by
    rw [Bool.or_eq_true, roundIff, stickyIff]
    constructor
    · rintro (high | ⟨other, -⟩)
      · exact (half_pos one_pos |>.trans_le high).ne'
      · exact other
    · intro other
      rcases eq_or_ne (Int.fract x) (1 / 2) with half | off
      · exact .inl half.ge
      · exact .inr ⟨other, off⟩
  refine ⟨whole, ?_, ?_⟩
  · change (m % 2 != 0) = true ↔ _
    rw [rest]
    rcases Nat.mod_two_eq_zero_or_one m with even | odd
    · rw [even, Nat.cast_zero, zero_add]
      exact ⟨fun absurd => by simp at absurd, fun high => by linarith⟩
    · rw [odd, Nat.cast_one]
      exact ⟨fun _ => by linarith, fun _ => rfl⟩
  · change (round || sticky) = true ↔ _
    rw [some, rest]
    rcases Nat.mod_two_eq_zero_or_one m with even | odd
    · rw [even, Nat.cast_zero, zero_add]
      exact ⟨fun other => ⟨by positivity, by linarith⟩,
        fun both zero => both.1 (by rw [zero, zero_div])⟩
    · rw [odd, Nat.cast_one]
      refine ⟨fun other => ⟨by positivity, fun half => other (by linarith)⟩, fun both zero => ?_⟩
      exact both.2 (by rw [zero, add_zero])

theorem Represents.shiftRight {em : ExtendedMantissa} {x : ℝ} (represents : Represents em x)
    (n : ℕ) : Represents (em >>> n) (x / 2 ^ n) := by
  induction n with
  | zero =>
    rw [pow_zero, div_one]
    exact represents
  | succ n ih =>
    rw [pow_succ, ← div_div]
    exact ih.shiftRightOne

theorem represents_exact (m : ℕ) :
    Represents (ExtendedMantissa.ofMantissaAndAccuracy m .exact) m := by
  refine ⟨Int.floor_natCast m, ?_, ?_⟩ <;> simp [ExtendedMantissa.ofMantissaAndAccuracy]

theorem targetExponent_eq (total : ℤ) :
    Format.binary64.targetExponent total = max (total - 53) (-1074) := rfl

/-- After the first rounding there may be one bit too many, which is a zero then. -/
theorem last_shift {r : ℕ} {t : ℤ} (few : r ≤ 2 ^ 53) (least : -1074 ≤ t)
    (normal : 2 ^ 52 ≤ r ∨ t = -1074) :
    ∃ m e, shiftToTargetExponent .binary64 r t .exact = (⟨m, false, false⟩, e) ∧
      m < 2 ^ 53 ∧ -1074 ≤ e ∧ (2 ^ 52 ≤ m ∨ e = -1074) ∧ (m : ℝ) * 2 ^ e = r * 2 ^ t := by
  rcases few.lt_or_eq with fewer | rfl
  · have log : r.log2 ≤ 52 := by
      rcases r.eq_zero_or_pos with rfl | positive
      · decide
      · exact Nat.lt_succ_iff.mp ((Nat.log2_lt positive.ne').mpr fewer)
    have stays : (Format.binary64.targetExponent (totalExponent r t) - t).toNat = 0 := by
      rw [targetExponent_eq, totalExponent]
      omega
    refine ⟨r, t, ?_, fewer, least, normal, rfl⟩
    simp only [shiftToTargetExponent, shiftToExponent, stays]
    rw [Nat.cast_zero, add_zero]
    rfl
  · have moves : (Format.binary64.targetExponent (totalExponent (2 ^ 53) t) - t).toNat = 1 := by
      rw [targetExponent_eq, totalExponent, Nat.log2_two_pow]
      omega
    refine ⟨2 ^ 52, t + 1, ?_, by norm_num, by omega, .inl le_rfl, ?_⟩
    · simp only [shiftToTargetExponent, shiftToExponent, moves]
      rfl
    · rw [zpow_add_one₀ two_ne_zero]
      push_cast
      ring

@[simp] theorem mantissa_ofMantissaAndAccuracy (m : ℕ) (accuracy : Accuracy) :
    (ExtendedMantissa.ofMantissaAndAccuracy m accuracy).mantissa = m := by
  cases accuracy with
  | exact => rfl
  | inexact side => cases side <;> rfl

/-- The target exponent is read off the significand, but it fits all reals with that whole part. -/
theorem target_fits {m : ℕ} {e t : ℤ} {x : ℝ} (low : m ≤ x) (high : x < m + 1)
    (target : t = Format.binary64.targetExponent (totalExponent m e)) (fine : e ≤ t) :
    |x * 2 ^ e| < 2 ^ (t + 53) ∧ (t = -1074 ∨ 2 ^ (t + 52) ≤ |x * 2 ^ e|) := by
  rw [targetExponent_eq, totalExponent] at target
  have nonneg : 0 ≤ x := (Nat.cast_nonneg m).trans low
  rw [abs_of_nonneg (mul_nonneg nonneg (two_zpow_pos e).le)]
  constructor
  · have power : (m : ℝ) + 1 ≤ 2 ^ ((m.log2 : ℤ) + 1) := by exact_mod_cast Nat.lt_log2_self
    calc x * 2 ^ e < 2 ^ ((m.log2 : ℤ) + 1) * 2 ^ e :=
          mul_lt_mul_of_pos_right (high.trans_le power) (two_zpow_pos e)
      _ = 2 ^ ((m.log2 : ℤ) + 1 + e) := by rw [← zpow_add₀ two_ne_zero]
      _ ≤ 2 ^ (t + 53) := zpow_le_zpow_right₀ one_le_two (by omega)
  · by_cases least : t = -1074
    · exact .inl least
    right
    have nonzero : m ≠ 0 := by
      rintro rfl
      rw [Nat.log2_zero] at target
      omega
    have power : (2 : ℝ) ^ (m.log2 : ℤ) ≤ m := by exact_mod_cast Nat.log2_self_le nonzero
    calc (2 : ℝ) ^ (t + 52) = 2 ^ (m.log2 : ℤ) * 2 ^ e := by
          rw [← zpow_add₀ two_ne_zero]
          congr 1
          omega
      _ ≤ x * 2 ^ e := mul_le_mul_of_nonneg_right (power.trans low) (two_zpow_pos e).le

def ofShifted (sign : Sign) (shifted : ExtendedMantissa × ℤ) : UnpackedFloat :=
  if zero : shifted.1.mantissa = 0 then .zero sign
  else .finite sign shifted.1.mantissa shifted.2 (Nat.pos_of_ne_zero zero)

theorem roundWithAccuracy_eq (sign : Sign) (m : ℕ) (e : ℤ) (accuracy : Accuracy) :
    roundWithAccuracy .binary64 sign m e accuracy =
      let first := shiftToTargetExponent .binary64 m e accuracy
      ofShifted sign (shiftToTargetExponent .binary64 first.1.roundedMantissa first.2 .exact) := rfl

theorem ofShifted_spec (sign : Sign) {m : ℕ} {e : ℤ} (few : m < 2 ^ 53) (least : -1074 ≤ e)
    (normal : 2 ^ 52 ≤ m ∨ e = -1074) :
    Canonical (ofShifted sign (⟨m, false, false⟩, e)) ∧
      valueOf (ofShifted sign (⟨m, false, false⟩, e)) = factor sign * (m * 2 ^ e) := by
  unfold ofShifted
  by_cases zero : m = 0
  · rw [dif_pos zero, zero, Nat.cast_zero, zero_mul, mul_zero]
    exact ⟨trivial, rfl⟩
  · rw [dif_neg zero]
    exact ⟨⟨few, least, normal⟩, rfl⟩

theorem roundWithAccuracy_spec (sign : Sign) {m : ℕ} {e : ℤ} {accuracy : Accuracy} {x : ℝ}
    (represents : Represents (.ofMantissaAndAccuracy m accuracy) x)
    (fine : e ≤ Format.binary64.targetExponent (totalExponent m e)) :
    Canonical (roundWithAccuracy .binary64 sign m e accuracy) ∧
      valueOf (roundWithAccuracy .binary64 sign m e accuracy) =
        factor sign * nearest (x * 2 ^ e) := by
  have floor := represents.floor
  rw [mantissa_ofMantissaAndAccuracy, Int.floor_eq_iff, Int.cast_natCast] at floor
  obtain ⟨t, target⟩ : ∃ t, t = Format.binary64.targetExponent (totalExponent m e) := ⟨_, rfl⟩
  have least : -1074 ≤ t := by
    rw [target, targetExponent_eq]
    exact le_max_right _ _
  obtain ⟨below, normal⟩ := target_fits floor.1 floor.2 target (target ▸ fine)
  have shift : e + ((t - e).toNat : ℤ) = t := by omega
  have units : x / 2 ^ (t - e).toNat = x * 2 ^ e / 2 ^ t := by
    rw [← zpow_natCast, Int.toNat_of_nonneg (by omega), zpow_sub₀ two_ne_zero, div_div_eq_mul_div]
  have first := represents.shiftRight (t - e).toNat
  rw [units] at first
  set em := ExtendedMantissa.ofMantissaAndAccuracy m accuracy >>> (t - e).toNat
  have firstShift : shiftToTargetExponent .binary64 m e accuracy = (em, t) := by
    simp only [shiftToTargetExponent, shiftToExponent, ← target, shift, em]
  have rounded := first.roundedMantissa
  have few : em.roundedMantissa ≤ 2 ^ 53 := by
    have bound := (le_abs_self _).trans (abs_toEven_units_le below)
    rw [← rounded] at bound
    exact_mod_cast bound
  have many : 2 ^ 52 ≤ em.roundedMantissa ∨ t = -1074 := by
    rcases normal with atLeast | above
    · exact .inr atLeast
    · rw [abs_of_nonneg (mul_nonneg ((Nat.cast_nonneg m).trans floor.1) (two_zpow_pos e).le)] at above
      have bound := le_toEven_units above
      rw [← rounded] at bound
      exact .inl (by exact_mod_cast bound)
  obtain ⟨last, power, lastShift, lastFew, lastLeast, lastNormal, same⟩ := last_shift few least many
  have value : (last : ℝ) * 2 ^ power = nearest (x * 2 ^ e) := by
    rw [same, nearest_eq_of_power least below (.inr normal), ← rounded, Int.cast_natCast]
  rw [roundWithAccuracy_eq, firstShift]
  dsimp only
  rw [lastShift, ← value]
  exact ofShifted_spec sign lastFew lastLeast lastNormal

end RoundScoring.Binary64
