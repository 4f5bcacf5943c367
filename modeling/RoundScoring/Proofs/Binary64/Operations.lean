import RoundScoring.Proofs.Binary64.Unpacked

/-!
The operations on unpacked numbers are the exact ones, rounded.
-/

namespace RoundScoring.Binary64

open Float.Model (Format UnpackedFloat totalExponent)
open Float.Model.UnpackedFloat

@[simp] theorem factor_positive : factor .positive = 1 := rfl

@[simp] theorem factor_negative : factor .negative = -1 := rfl

@[simp] theorem factor_mul (s t : Sign) : factor (s * t) = factor s * factor t := by
  cases s <;> cases t
  · exact (by norm_num : (1 : ℝ) = -1 * -1)
  · exact (mul_one (-1 : ℝ)).symm
  · exact (one_mul (-1 : ℝ)).symm
  · exact (one_mul (1 : ℝ)).symm

@[simp] theorem factor_div (s t : Sign) : factor (s / t) = factor s / factor t := by
  cases s <;> cases t
  · exact (by norm_num : (1 : ℝ) = -1 / -1)
  · exact (div_one (-1 : ℝ)).symm
  · exact (by norm_num : (-1 : ℝ) = 1 / -1)
  · exact (div_one (1 : ℝ)).symm

theorem factor_apply (s : Sign) (n : ℤ) : ((s.apply n : ℤ) : ℝ) = factor s * n := by
  cases s <;> simp [Sign.apply]

theorem nearest_factor (s : Sign) (x : ℝ) : nearest (factor s * x) = factor s * nearest x := by
  cases s <;> simp

theorem Canonical.onGrid {u : UnpackedFloat} (canonical : Canonical u) : OnGrid (valueOf u) := by
  cases u with
  | zero => exact ⟨0, 0, by norm_num, by norm_num, by simp [valueOf]⟩
  | finite sign m e positive =>
    obtain ⟨few, least, -⟩ := canonical
    have grid : OnGrid (m * 2 ^ e) := ⟨m, e, by simpa using few.le, least, by simp⟩
    cases sign with
    | positive => simpa [valueOf_finite] using grid
    | negative => simpa [valueOf_finite] using grid.neg
  | infinity => exact canonical.elim
  | notANumber => exact canonical.elim

theorem decreaseExponent_value (m : ℕ) (e t : ℤ) :
    ((decreaseExponent m e t).1 : ℝ) * 2 ^ (decreaseExponent m e t).2 = m * 2 ^ e := by
  simp only [decreaseExponent, Nat.shiftLeft_eq, Nat.cast_mul, Nat.cast_pow, Nat.cast_ofNat]
  rw [← zpow_natCast, mul_assoc, ← zpow_add₀ two_ne_zero]
  congr 2
  omega

theorem decreaseExponent_snd {m : ℕ} {e t : ℤ} (lower : t ≤ e) : (decreaseExponent m e t).2 = t := by
  simp only [decreaseExponent]
  omega

theorem log2_shiftLeft {m : ℕ} (positive : 0 < m) (k : ℕ) : (m <<< k).log2 = m.log2 + k := by
  induction k with
  | zero => rfl
  | succ k ih =>
    have nonzero : m <<< k ≠ 0 := by
      rw [Nat.shiftLeft_eq]
      positivity
    rw [Nat.shiftLeft_succ, Nat.log2_two_mul nonzero, ih, add_assoc]

theorem totalExponent_decreaseExponent {m : ℕ} (positive : 0 < m) (e t : ℤ) :
    totalExponent (decreaseExponent m e t).1 (decreaseExponent m e t).2 = totalExponent m e := by
  simp only [decreaseExponent, totalExponent, log2_shiftLeft positive]
  push_cast
  ring

theorem round_spec (sign : Sign) {m : ℕ} (positive : 0 < m) (e : ℤ) :
    Canonical (round .binary64 sign m e) ∧
      valueOf (round .binary64 sign m e) = factor sign * nearest (m * 2 ^ e) := by
  set t := Format.binary64.targetExponent (totalExponent m e) with target
  have fine : (decreaseExponent m e t).2 ≤ Format.binary64.targetExponent
      (totalExponent (decreaseExponent m e t).1 (decreaseExponent m e t).2) := by
    rw [totalExponent_decreaseExponent positive, ← target]
    simp only [decreaseExponent]
    omega
  rw [← decreaseExponent_value m e t]
  exact roundWithAccuracy_spec sign (represents_exact _) fine

theorem normalize_spec (k e : ℤ) (zeroSign : Sign) :
    Canonical (UnpackedFloat.normalize .binary64 k e zeroSign) ∧
      valueOf (UnpackedFloat.normalize .binary64 k e zeroSign) = nearest (k * 2 ^ e) := by
  rcases lt_trichotomy k 0 with negative | rfl | positive
  · have result : UnpackedFloat.normalize .binary64 k e zeroSign =
        round .binary64 .negative (-k).toNat e := by
      unfold UnpackedFloat.normalize
      rw [Int.compare_eq_lt.mpr negative]
    have size : (((-k).toNat : ℤ) : ℝ) = -k := by
      rw [Int.toNat_of_nonneg (by omega)]
      push_cast
      rfl
    have spec := round_spec .negative (m := (-k).toNat) (by omega) e
    rw [Int.cast_natCast] at size
    rw [← result, size, neg_mul, nearest_neg, factor_negative, neg_one_mul, neg_neg] at spec
    exact spec
  · rw [Int.cast_zero, zero_mul, nearest_zero]
    exact ⟨trivial, rfl⟩
  · have result : UnpackedFloat.normalize .binary64 k e zeroSign =
        round .binary64 .positive k.toNat e := by
      unfold UnpackedFloat.normalize
      rw [Int.compare_eq_gt.mpr positive]
    have size : ((k.toNat : ℤ) : ℝ) = k := by rw [Int.toNat_of_nonneg positive.le]
    have spec := round_spec .positive (m := k.toNat) (by omega) e
    rw [Int.cast_natCast] at size
    rw [← result, size, factor_positive, one_mul] at spec
    exact spec

theorem add_spec {a b : UnpackedFloat} (left : Canonical a) (right : Canonical b) :
    Canonical (add .binary64 a b) ∧
      valueOf (add .binary64 a b) = nearest (valueOf a + valueOf b) := by
  cases a with
  | infinity => exact left.elim
  | notANumber => exact left.elim
  | zero s =>
    cases b with
    | infinity => exact right.elim
    | notANumber => exact right.elim
    | zero t =>
      change Canonical (if s == t then .zero s else .zero .positive) ∧
        valueOf (if s == t then .zero s else .zero .positive) = nearest (0 + 0)
      rw [add_zero, nearest_zero]
      split <;> exact ⟨trivial, rfl⟩
    | finite t n f positive =>
      change Canonical (.finite t n f positive) ∧ _ = nearest (0 + valueOf (.finite t n f positive))
      rw [zero_add, right.onGrid.nearest_eq]
      exact ⟨right, rfl⟩
  | finite s m e positive =>
    cases b with
    | infinity => exact right.elim
    | notANumber => exact right.elim
    | zero t =>
      change Canonical (.finite s m e positive) ∧ _ = nearest (valueOf (.finite s m e positive) + 0)
      rw [add_zero, left.onGrid.nearest_eq]
      exact ⟨left, rfl⟩
    | finite t n f positive' =>
      have spec := normalize_spec
        (s.apply (decreaseExponent m e (min e f)).1 + t.apply (decreaseExponent n f (min e f)).1)
        (min e f) .positive
      have first := decreaseExponent_value m e (min e f)
      have second := decreaseExponent_value n f (min e f)
      rw [decreaseExponent_snd (min_le_left e f)] at first
      rw [decreaseExponent_snd (min_le_right e f)] at second
      rw [Int.cast_add, factor_apply, factor_apply, Int.cast_natCast, Int.cast_natCast, add_mul,
        mul_assoc, mul_assoc, first, second] at spec
      exact spec

theorem factor_neg (s : Sign) : factor (-s) = -factor s := by
  cases s
  · exact (neg_neg (1 : ℝ)).symm
  · rfl

theorem neg_spec {a : UnpackedFloat} (canonical : Canonical a) :
    Canonical (neg a) ∧ valueOf (neg a) = -valueOf a := by
  cases a with
  | infinity => exact canonical.elim
  | notANumber => exact canonical.elim
  | zero => exact ⟨trivial, neg_zero.symm⟩
  | finite s m e positive =>
    refine ⟨canonical, ?_⟩
    change factor (-s) * _ = -(factor s * _)
    rw [factor_neg, neg_mul]

theorem unpacked_sub (a b : UnpackedFloat) : sub .binary64 a b = add .binary64 a (neg b) := by
  cases a with
  | finite s m e positive =>
    cases b with
    | finite t n f positive' =>
      cases t with
      | negative =>
        change UnpackedFloat.normalize _ (_ - -_) _ _ = UnpackedFloat.normalize _ (_ + _) _ _
        rw [sub_neg_eq_add]
        rfl
      | positive => rfl
    | infinity => rfl
    | notANumber => rfl
    | zero => rfl
  | infinity => cases b <;> rfl
  | notANumber => cases b <;> rfl
  | zero => cases b <;> rfl

theorem sub_spec {a b : UnpackedFloat} (left : Canonical a) (right : Canonical b) :
    Canonical (sub .binary64 a b) ∧
      valueOf (sub .binary64 a b) = nearest (valueOf a - valueOf b) := by
  have negated := neg_spec right
  rw [unpacked_sub, sub_eq_add_neg, ← negated.2]
  exact add_spec left negated.1

theorem mul_spec {a b : UnpackedFloat} (left : Canonical a) (right : Canonical b) :
    Canonical (mul .binary64 a b) ∧
      valueOf (mul .binary64 a b) = nearest (valueOf a * valueOf b) := by
  cases a with
  | infinity => exact left.elim
  | notANumber => exact left.elim
  | zero s =>
    have product : valueOf (.zero s) * valueOf b = 0 := zero_mul _
    rw [product, nearest_zero]
    cases b with
    | infinity => exact right.elim
    | notANumber => exact right.elim
    | zero => exact ⟨trivial, rfl⟩
    | finite => exact ⟨trivial, rfl⟩
  | finite s m e positive =>
    cases b with
    | infinity => exact right.elim
    | notANumber => exact right.elim
    | zero t =>
      have product : valueOf (.finite s m e positive) * valueOf (.zero t) = 0 := mul_zero _
      rw [product, nearest_zero]
      exact ⟨trivial, rfl⟩
    | finite t n f positive' =>
      have fine : e + f ≤ Format.binary64.targetExponent (totalExponent (m * n) (e + f)) := by
        have bits : 52 ≤ (m * n).log2 ∨ e + f ≤ -1074 := by
          rcases left.2.2 with normal | least
          · refine .inl ((Nat.le_log2 (by positivity)).mpr (normal.trans ?_))
            exact Nat.le_mul_of_pos_right m positive'
          rcases right.2.2 with normal | least'
          · refine .inl ((Nat.le_log2 (by positivity)).mpr (normal.trans ?_))
            exact Nat.le_mul_of_pos_left n positive
          · omega
        rw [targetExponent_eq, totalExponent]
        omega
      have spec := roundWithAccuracy_spec (s * t) (represents_exact (m * n)) fine
      have product : valueOf (.finite s m e positive) * valueOf (.finite t n f positive') =
          factor (s * t) * ((m * n : ℕ) * 2 ^ (e + f)) := by
        rw [zpow_add₀ two_ne_zero, factor_mul, valueOf_finite, valueOf_finite]
        push_cast
        ring
      rw [product, nearest_factor]
      exact spec

theorem represents_fraction (m : ℕ) {n : ℕ} (positive : 0 < n) :
    Represents (.ofMantissaAndAccuracy (m / n) (accuracyOfFraction (m % n) n)) (m / n : ℝ) := by
  have whole : ⌊(m / n : ℝ)⌋ = (m / n : ℕ) := by
    rw [Int.floor_div_natCast, Int.floor_natCast, Int.natCast_div]
  have rest : Int.fract (m / n : ℝ) = (m % n : ℕ) / n := Int.fract_div_natCast_eq_div_natCast_mod
  have denominator : (0 : ℝ) < n := by exact_mod_cast positive
  have half : 1 / 2 ≤ Int.fract (m / n : ℝ) ↔ n ≤ 2 * (m % n) := by
    rw [rest, div_le_div_iff₀ two_pos denominator, one_mul, mul_comm]
    norm_cast
  have nothing : Int.fract (m / n : ℝ) = 0 ↔ m % n = 0 := by
    rw [rest, div_eq_zero_iff, or_iff_left denominator.ne', Nat.cast_eq_zero]
  have middle : Int.fract (m / n : ℝ) = 1 / 2 ↔ 2 * (m % n) = n := by
    rw [rest, div_eq_div_iff denominator.ne' two_ne_zero, one_mul, mul_comm]
    norm_cast
  refine ⟨by rw [mantissa_ofMantissaAndAccuracy, whole], ?_, ?_⟩
  all_goals
    rw [accuracyOfFraction]
    simp only [half, ne_eq, nothing, middle]
    split
    next zero => simp [ExtendedMantissa.ofMantissaAndAccuracy, zero, positive.ne']
    next other =>
      rcases lt_trichotomy (2 * (m % n)) n with below | same | above
      · rw [Nat.compare_eq_lt.mpr below]
        simp [ExtendedMantissa.ofMantissaAndAccuracy]
        omega
      · rw [Nat.compare_eq_eq.mpr same]
        simp [ExtendedMantissa.ofMantissaAndAccuracy]
        omega
      · rw [Nat.compare_eq_gt.mpr above]
        simp [ExtendedMantissa.ofMantissaAndAccuracy]
        omega

theorem log2_le_of_div (m : ℕ) {n : ℕ} (positive : 0 < n) :
    m.log2 ≤ (m / n).log2 + n.log2 + 1 := by
  rcases m.eq_zero_or_pos with rfl | nonzero
  · simp
  have below : m < 2 ^ ((m / n).log2 + n.log2 + 2) := by
    calc m < (m / n + 1) * n := Nat.lt_mul_of_div_lt (Nat.lt_succ_self _) positive
      _ ≤ 2 ^ ((m / n).log2 + 1) * 2 ^ (n.log2 + 1) :=
        Nat.mul_le_mul Nat.lt_log2_self Nat.lt_log2_self.le
      _ = 2 ^ ((m / n).log2 + n.log2 + 2) := by
        rw [← pow_add]
        congr 1
        omega
  exact Nat.lt_succ_iff.mp ((Nat.log2_lt nonzero.ne').mpr below)

theorem div_finite_spec (s t : Sign) {m n : ℕ} (e f : ℤ) (positive : 0 < m) (positive' : 0 < n) :
    Canonical (div .binary64 (.finite s m e positive) (.finite t n f positive')) ∧
      valueOf (div .binary64 (.finite s m e positive) (.finite t n f positive')) =
        factor (s / t) * nearest (m * 2 ^ e / (n * 2 ^ f)) := by
  obtain ⟨target, chosen⟩ : ∃ target, target = min (e - f)
    (Format.binary64.targetExponent (totalExponent m e - totalExponent n f)) := ⟨_, rfl⟩
  set shift := (e - f - target).toNat with shifted
  have fine : target ≤
      Format.binary64.targetExponent (totalExponent ((m <<< shift) / n) target) := by
    have log := log2_le_of_div (m <<< shift) positive'
    rw [log2_shiftLeft positive] at log
    rw [targetExponent_eq, totalExponent, totalExponent] at chosen
    rw [targetExponent_eq, totalExponent]
    omega
  have spec := roundWithAccuracy_spec (s / t) (represents_fraction (m <<< shift) positive') fine
  have quotient : (((m <<< shift : ℕ) : ℝ) / n) * 2 ^ target = m * 2 ^ e / (n * 2 ^ f) := by
    have power : (shift : ℤ) + target = e - f := by omega
    rw [Nat.shiftLeft_eq]
    push_cast
    rw [mul_div_right_comm, mul_assoc, ← zpow_natCast, ← zpow_add₀ two_ne_zero, power,
      zpow_sub₀ two_ne_zero, div_mul_div_comm]
  rw [quotient, shifted, chosen] at spec
  exact spec

theorem div_spec {a b : UnpackedFloat} (left : Canonical a) (right : Canonical b)
    (nonzero : valueOf b ≠ 0) :
    Canonical (div .binary64 a b) ∧
      valueOf (div .binary64 a b) = nearest (valueOf a / valueOf b) := by
  cases b with
  | infinity => exact right.elim
  | notANumber => exact right.elim
  | zero => exact (nonzero rfl).elim
  | finite t n f positive' =>
    cases a with
    | infinity => exact left.elim
    | notANumber => exact left.elim
    | zero s =>
      have quotient : valueOf (.zero s) / valueOf (.finite t n f positive') = 0 := zero_div _
      rw [quotient, nearest_zero]
      exact ⟨trivial, rfl⟩
    | finite s m e positive =>
      have spec := div_finite_spec s t e f positive positive'
      rw [← nearest_factor, factor_div, ← mul_div_mul_comm] at spec
      exact spec

/-- A root is off a half, so what is left says on which side. -/
theorem represents_sqrt (m : ℕ) :
    Represents (.ofMantissaAndAccuracy m.sqrt
      (if m - m.sqrt * m.sqrt = 0 then .exact
        else .inexact (if m - m.sqrt * m.sqrt ≤ m.sqrt then .lt else .gt))) (√m) := by
  have low := Nat.sqrt_le m
  have whole : ⌊√(m : ℝ)⌋ = m.sqrt := Real.floor_real_sqrt_eq_nat_sqrt
  have rest : Int.fract √(m : ℝ) = √m - m.sqrt := by
    rw [Int.fract, whole, Int.cast_natCast]
  have square : √(m : ℝ) * √m = m := Real.mul_self_sqrt (Nat.cast_nonneg m)
  have parts : (m : ℝ) = m.sqrt * m.sqrt + (m - m.sqrt * m.sqrt : ℕ) := by
    exact_mod_cast (Nat.add_sub_cancel' low).symm
  generalize m - m.sqrt * m.sqrt = left at parts
  have half : 1 / 2 ≤ Int.fract √(m : ℝ) ↔ m.sqrt < left := by
    have above : 1 / 2 ≤ √(m : ℝ) - m.sqrt ↔ (m.sqrt + 1 / 2 : ℝ) ^ 2 ≤ m := by
      rw [← Real.le_sqrt' (by positivity : (0 : ℝ) < m.sqrt + 1 / 2)]
      constructor <;> intro <;> linarith
    rw [rest, above, ← Nat.add_one_le_iff, ← Nat.cast_le (α := ℝ)]
    push_cast
    constructor
    · intro bound
      have some : (m.sqrt : ℝ) < left := by nlinarith
      exact_mod_cast Nat.add_one_le_iff.mpr (by exact_mod_cast some)
    · intro bound
      nlinarith
  have nothing : Int.fract √(m : ℝ) = 0 ↔ left = 0 := by
    rw [rest]
    constructor
    · intro zero
      have equal : √(m : ℝ) = m.sqrt := sub_eq_zero.mp zero
      rw [equal] at square
      exact_mod_cast (by linarith : (left : ℝ) = 0)
    · rintro rfl
      rw [parts, Nat.cast_zero, add_zero, Real.sqrt_mul_self (Nat.cast_nonneg _), sub_self]
  have middle : Int.fract √(m : ℝ) ≠ 1 / 2 := by
    intro equal
    have root : √(m : ℝ) = m.sqrt + 1 / 2 := by linarith
    rw [root] at square
    have quarters : (4 * left : ℝ) = 4 * m.sqrt + 1 := by nlinarith
    have odd : 4 * left = 4 * m.sqrt + 1 := by exact_mod_cast quarters
    omega
  refine ⟨by rw [mantissa_ofMantissaAndAccuracy, whole], ?_, ?_⟩
  all_goals
    simp only [half, ne_eq, nothing, middle, not_false_eq_true, and_true]
    split_ifs with exactly below
    · simp [ExtendedMantissa.ofMantissaAndAccuracy, exactly]
    · simp [ExtendedMantissa.ofMantissaAndAccuracy]
      omega
    · simp [ExtendedMantissa.ofMantissaAndAccuracy]
      omega

theorem log2_lt_of_sqrt (m : ℕ) : m.log2 < 2 * m.sqrt.log2 + 2 := by
  rcases m.eq_zero_or_pos with rfl | positive
  · simp
  refine (Nat.log2_lt positive.ne').mpr ?_
  calc m < (m.sqrt + 1) * (m.sqrt + 1) := Nat.sqrt_lt.mp (Nat.lt_succ_self _)
    _ ≤ 2 ^ (m.sqrt.log2 + 1) * 2 ^ (m.sqrt.log2 + 1) :=
      Nat.mul_le_mul Nat.lt_log2_self Nat.lt_log2_self
    _ = 2 ^ (2 * m.sqrt.log2 + 2) := by
      rw [← pow_add]
      congr 1
      omega

theorem sqrt_finite_spec {m : ℕ} (e : ℤ) (positive : 0 < m) :
    Canonical (sqrt .binary64 (.finite .positive m e positive)) ∧
      valueOf (sqrt .binary64 (.finite .positive m e positive)) = nearest √(m * 2 ^ e) := by
  obtain ⟨target, chosen⟩ : ∃ target, target = min (e / 2)
    (Format.binary64.targetExponent ((totalExponent m e + 1) / 2)) := ⟨_, rfl⟩
  set shift := (e - 2 * target).toNat with shifted
  have fine : target ≤
      Format.binary64.targetExponent (totalExponent (m <<< shift).sqrt target) := by
    have log := log2_lt_of_sqrt (m <<< shift)
    rw [log2_shiftLeft positive] at log
    rw [targetExponent_eq, totalExponent] at chosen
    rw [targetExponent_eq, totalExponent]
    omega
  have spec := roundWithAccuracy_spec .positive (represents_sqrt (m <<< shift)) fine
  have root : √((m <<< shift : ℕ) : ℝ) * 2 ^ target = √(m * 2 ^ e) := by
    have power : (shift : ℤ) + 2 * target = e := by omega
    rw [← power, zpow_add₀ two_ne_zero, two_mul, zpow_add₀ two_ne_zero, Nat.shiftLeft_eq]
    push_cast
    rw [← mul_assoc, zpow_natCast]
    conv_rhs => rw [Real.sqrt_mul (by positivity), Real.sqrt_mul_self (two_zpow_pos target).le]
  rw [root, factor_positive, one_mul, shifted, chosen] at spec
  exact spec

theorem sqrt_spec {a : UnpackedFloat} (canonical : Canonical a) (nonneg : 0 ≤ valueOf a) :
    Canonical (sqrt .binary64 a) ∧ valueOf (sqrt .binary64 a) = nearest √(valueOf a) := by
  cases a with
  | infinity => exact canonical.elim
  | notANumber => exact canonical.elim
  | zero sign =>
    have root : √(valueOf (.zero sign)) = 0 := Real.sqrt_zero
    rw [root, nearest_zero]
    exact ⟨trivial, rfl⟩
  | finite sign m e positive =>
    cases sign with
    | negative =>
      have above : (0 : ℝ) < m * 2 ^ e := mul_pos (by exact_mod_cast positive) (two_zpow_pos e)
      have below : valueOf (.finite .negative m e positive) = -(m * 2 ^ e) := neg_one_mul _
      linarith
    | positive =>
      have same : valueOf (.finite .positive m e positive) = m * 2 ^ e := one_mul _
      rw [same]
      exact sqrt_finite_spec e positive

end RoundScoring.Binary64
