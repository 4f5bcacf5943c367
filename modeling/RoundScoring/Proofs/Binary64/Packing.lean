import RoundScoring.Proofs.Binary64.Operations

/-!
Numbers in sixty-four bits. A canonical number below the power of two that is too large comes back
from its bits (`unpack_pack`), bits hold canonical numbers (`canonical_unpack`), and canonical
numbers compare as what they are worth.
-/

namespace RoundScoring.Binary64

open Float.Model (Format UnpackedFloat totalExponent)
open Float.Model.UnpackedFloat

theorem toNat_append_one (m : BitVec 52) : (1#1 ++ m).toNat = 2 ^ 52 + m.toNat := by
  rw [BitVec.toNat_append, ← Nat.shiftLeft_add_eq_or_of_lt m.isLt]
  rfl

theorem unpack_normal (sign : Sign) {m b : ℕ} {e : ℤ} (normal : 2 ^ 52 ≤ m) (few : m < 2 ^ 53)
    (biased : e + 1075 = b) (positive : 0 < b) (fits : b < 2047) :
    unpack .binary64 (packComponents .binary64 sign (BitVec.ofNat 11 b) (BitVec.ofNat 52 m)) =
      .finite sign m e (by omega) := by
  have exponent : (BitVec.ofNat 11 b).toNat = b := by
    rw [BitVec.toNat_ofNat, Nat.mod_eq_of_lt (by omega)]
  have notZero : BitVec.ofNat 11 b ≠ 0#11 := by
    intro zero
    rw [zero] at exponent
    exact positive.ne exponent
  have notOnes : BitVec.ofNat 11 b ≠ -1#11 := by
    intro ones
    rw [ones] at exponent
    exact fits.ne' exponent
  have mantissa : (1#1 ++ BitVec.ofNat 52 m).toNat = m := by
    rw [toNat_append_one, BitVec.toNat_ofNat]
    omega
  unfold unpack
  simp only [unpackExponent_packComponents, unpackMantissa_packComponents,
    unpackSign_packComponents, Sign.ofBitVec_toBitVec, notZero, notOnes, if_false, exponent,
    mantissa]
  congr 1
  change (b : ℤ) - 1075 = e
  omega

theorem unpack_subnormal (sign : Sign) {m : ℕ} (positive : 0 < m) (few : m < 2 ^ 52) :
    unpack .binary64 (packComponents .binary64 sign 0#11 (BitVec.ofNat 52 m)) =
      .finite sign m (-1074) positive := by
  have mantissa : (BitVec.ofNat 52 m).toNat = m := by
    rw [BitVec.toNat_ofNat, Nat.mod_eq_of_lt few]
  have notZero : BitVec.ofNat 52 m ≠ 0#52 := by
    intro zero
    rw [zero] at mantissa
    exact positive.ne mantissa
  have notOnes : 0#11 ≠ -1#11 := by decide
  unfold unpack
  simp only [unpackExponent_packComponents, unpackMantissa_packComponents,
    unpackSign_packComponents, Sign.ofBitVec_toBitVec, notZero, notOnes, if_false, if_true,
    dite_false, mantissa]
  rfl

def Fits : UnpackedFloat → Prop
  | .finite _ _ e _ => e ≤ 971
  | _ => True

theorem valueOf_positive (m : ℕ) (e : ℤ) (positive : 0 < m) :
    valueOf (.finite .positive m e positive) = m * 2 ^ e := one_mul _

theorem valueOf_negative (m : ℕ) (e : ℤ) (positive : 0 < m) :
    valueOf (.finite .negative m e positive) = -(m * 2 ^ e) := neg_one_mul _

theorem abs_valueOf_finite (sign : Sign) (m : ℕ) (e : ℤ) (positive : 0 < m) :
    |valueOf (.finite sign m e positive)| = m * 2 ^ e := by
  have nonneg : (0 : ℝ) ≤ m * 2 ^ e := mul_nonneg (Nat.cast_nonneg m) (two_zpow_pos e).le
  cases sign with
  | negative => rw [valueOf_negative, abs_neg, abs_of_nonneg nonneg]
  | positive => rw [valueOf_positive, abs_of_nonneg nonneg]

theorem fits_iff {u : UnpackedFloat} (canonical : Canonical u) :
    Fits u ↔ |valueOf u| < 2 ^ (1024 : ℤ) := by
  cases u with
  | infinity => exact canonical.elim
  | notANumber => exact canonical.elim
  | zero =>
    refine ⟨fun _ => ?_, fun _ => trivial⟩
    change |(0 : ℝ)| < _
    rw [abs_zero]
    exact two_zpow_pos _
  | finite sign m e positive =>
    obtain ⟨few, -, normal⟩ := canonical
    rw [abs_valueOf_finite]
    constructor
    · intro (fits : e ≤ 971)
      calc (m : ℝ) * 2 ^ e < 2 ^ (53 : ℤ) * 2 ^ e :=
            mul_lt_mul_of_pos_right (by exact_mod_cast few) (two_zpow_pos e)
        _ = 2 ^ (53 + e) := (zpow_add₀ two_ne_zero _ _).symm
        _ ≤ 2 ^ (1024 : ℤ) := zpow_le_zpow_right₀ one_le_two (by omega)
    · intro small
      by_contra large
      have above : 972 ≤ e := not_le.mp large
      have many : 2 ^ 52 ≤ m := normal.resolve_right (by omega)
      refine small.not_ge ?_
      calc (2 : ℝ) ^ (1024 : ℤ) ≤ 2 ^ (52 + e) := zpow_le_zpow_right₀ one_le_two (by omega)
        _ = 2 ^ (52 : ℤ) * 2 ^ e := zpow_add₀ two_ne_zero _ _
        _ ≤ m * 2 ^ e := mul_le_mul_of_nonneg_right (by exact_mod_cast many) (two_zpow_pos e).le

theorem unpack_pack {u : UnpackedFloat} (canonical : Canonical u) (fits : Fits u) :
    (Float.Model.pack u).unpack = u := by
  cases u with
  | infinity => exact canonical.elim
  | notANumber => exact canonical.elim
  | zero sign => cases sign <;> rfl
  | finite sign m e positive =>
    obtain ⟨few, least, normal⟩ := canonical
    change e ≤ 971 at fits
    change unpack .binary64 (if 2 ^ 11 ≤ (e + 1023 + 52).toNat + 1 then packedInfinity .binary64 sign
      else if m.log2 + 1 = 53 then
        packComponents .binary64 sign (BitVec.ofNat 11 (e + 1023 + 52).toNat) (BitVec.ofNat 52 m)
      else packComponents .binary64 sign 0#11 (BitVec.ofNat 52 m)) = _
    rw [if_neg (by omega)]
    by_cases all : 2 ^ 52 ≤ m
    · have log : m.log2 + 1 = 53 := by
        rw [(Nat.log2_eq_iff positive.ne').mpr ⟨all, few⟩]
      rw [if_pos log]
      exact unpack_normal sign all few (by omega) (by omega) (by omega)
    · have log : ¬m.log2 + 1 = 53 := by
        have below := (Nat.log2_lt positive.ne').mpr (not_le.mp all)
        omega
      rw [if_neg log]
      cases normal.resolve_left all
      exact unpack_subnormal sign positive (not_le.mp all)

theorem unpack_pack_of_not_fits {u : UnpackedFloat} (large : ¬Fits u) :
    ∃ sign, (Float.Model.pack u).unpack = .infinity sign := by
  cases u with
  | infinity => exact (large trivial).elim
  | notANumber => exact (large trivial).elim
  | zero => exact (large trivial).elim
  | finite sign m e positive =>
    have above : ¬e ≤ 971 := large
    refine ⟨sign, ?_⟩
    change unpack .binary64 (if 2 ^ 11 ≤ (e + 1023 + 52).toNat + 1 then packedInfinity .binary64 sign
      else _) = _
    rw [if_pos (by omega)]
    cases sign <;> rfl

theorem canonical_unpack {x : Float.Model} (finite : x.unpack.isFinite = true) :
    Canonical x.unpack ∧ Fits x.unpack := by
  change (unpack .binary64 x.toBits.toBitVec).isFinite = true at finite
  change Canonical (unpack .binary64 x.toBits.toBitVec) ∧ Fits (unpack .binary64 x.toBits.toBitVec)
  have mantissa : (@unpackMantissa .binary64 x.toBits.toBitVec).toNat < 2 ^ 52 :=
    BitVec.isLt _
  have exponent : (@unpackExponent .binary64 x.toBits.toBitVec).toNat < 2 ^ 11 :=
    BitVec.isLt _
  unfold unpack at finite ⊢
  dsimp only at finite ⊢
  split at finite
  next ones =>
    split at finite <;> contradiction
  next notOnes =>
    rw [if_neg notOnes]
    split at finite
    next zero =>
      rw [if_pos zero]
      split at finite
      next none =>
        rw [dif_pos none]
        exact ⟨trivial, trivial⟩
      next some =>
        rw [dif_neg some, zero]
        exact ⟨⟨mantissa.trans (by norm_num), by decide, .inr (by decide)⟩,
          (by decide : -1074 ≤ (971 : ℤ))⟩
    next notZero =>
      rw [if_neg notZero]
      have some : (@unpackExponent .binary64 x.toBits.toBitVec).toNat ≠ 0 :=
        fun none => notZero (BitVec.eq_of_toNat_eq none)
      have notAll : (@unpackExponent .binary64 x.toBits.toBitVec).toNat ≠ 2047 :=
        fun all => notOnes (BitVec.eq_of_toNat_eq all)
      refine ⟨⟨?_, ?_, .inl ?_⟩, ?_⟩
      · rw [toNat_append_one]
        omega
      · change (-1074 : ℤ) ≤ _ - 1075
        omega
      · rw [toNat_append_one]
        omega
      · change _ - 1075 ≤ (971 : ℤ)
        omega

theorem lt_of_exponent_lt {m n : ℕ} {e f : ℤ} (few : m < 2 ^ 53) (least : -1074 ≤ e)
    (normal : 2 ^ 52 ≤ n ∨ f = -1074) (below : e < f) : (m : ℝ) * 2 ^ e < n * 2 ^ f := by
  have many : 2 ^ 52 ≤ n := normal.resolve_right (by omega)
  calc (m : ℝ) * 2 ^ e < 2 ^ (53 : ℤ) * 2 ^ e :=
        mul_lt_mul_of_pos_right (by exact_mod_cast few) (two_zpow_pos e)
    _ = 2 ^ (53 + e) := (zpow_add₀ two_ne_zero _ _).symm
    _ ≤ 2 ^ (52 + f) := zpow_le_zpow_right₀ one_le_two (by omega)
    _ = 2 ^ (52 : ℤ) * 2 ^ f := zpow_add₀ two_ne_zero _ _
    _ ≤ n * 2 ^ f := mul_le_mul_of_nonneg_right (by exact_mod_cast many) (two_zpow_pos f).le

theorem compare_magnitudes {m n : ℕ} {e f : ℤ} (few : m < 2 ^ 53) (few' : n < 2 ^ 53)
    (least : -1074 ≤ e) (least' : -1074 ≤ f) (normal : 2 ^ 52 ≤ m ∨ e = -1074)
    (normal' : 2 ^ 52 ≤ n ∨ f = -1074) :
    (compare e f).then (compare m n) = cmp ((m : ℝ) * 2 ^ e) (n * 2 ^ f) := by
  rcases lt_trichotomy e f with below | rfl | above
  · rw [Int.compare_eq_lt.mpr below]
    exact (cmp_eq_lt_iff _ _).mpr (lt_of_exponent_lt few least normal' below) |>.symm
  · rw [Int.compare_eq_eq.mpr rfl, cmp_mul_pos_right (two_zpow_pos e)]
    rcases lt_trichotomy m n with below | rfl | above
    · rw [Nat.compare_eq_lt.mpr below, (cmp_eq_lt_iff _ _).mpr (by exact_mod_cast below)]
      rfl
    · rw [Nat.compare_eq_eq.mpr rfl, cmp_self_eq_eq]
      rfl
    · rw [Nat.compare_eq_gt.mpr above, (cmp_eq_gt_iff _ _).mpr (by exact_mod_cast above)]
      rfl
  · rw [Int.compare_eq_gt.mpr above]
    exact (cmp_eq_gt_iff _ _).mpr (lt_of_exponent_lt few' least' normal above) |>.symm

theorem compare_spec {a b : UnpackedFloat} (left : Canonical a) (right : Canonical b) :
    UnpackedFloat.compare a b = some (cmp (valueOf a) (valueOf b)) := by
  have size (m : ℕ) (e : ℤ) (positive : 0 < m) : (0 : ℝ) < m * 2 ^ e :=
    mul_pos (by exact_mod_cast positive) (two_zpow_pos e)
  have less {x y : ℝ} (below : x < y) : some .lt = some (cmp x y) :=
    congrArg some ((cmp_eq_lt_iff x y).mpr below).symm
  have greater {x y : ℝ} (above : y < x) : some .gt = some (cmp x y) :=
    congrArg some ((cmp_eq_gt_iff x y).mpr above).symm
  cases a with
  | infinity => exact left.elim
  | notANumber => exact left.elim
  | zero s =>
    cases b with
    | infinity => exact right.elim
    | notANumber => exact right.elim
    | zero t => exact congrArg some (cmp_self_eq_eq (0 : ℝ)).symm
    | finite t n f positive' =>
      have above := size n f positive'
      cases t with
      | negative => exact greater (by rw [valueOf_negative]; exact neg_neg_of_pos above)
      | positive => exact less (by rw [valueOf_positive]; exact above)
  | finite s m e positive =>
    have above := size m e positive
    cases b with
    | infinity => exact right.elim
    | notANumber => exact right.elim
    | zero t =>
      cases s with
      | negative => exact less (by rw [valueOf_negative]; exact neg_neg_of_pos above)
      | positive => exact greater (by rw [valueOf_positive]; exact above)
    | finite t n f positive' =>
      have above' := size n f positive'
      have magnitudes := compare_magnitudes left.1 right.1 left.2.1 right.2.1 left.2.2 right.2.2
      cases s with
      | negative =>
        cases t with
        | negative =>
          have reversed : StrictAnti fun x : ℝ => -x := fun _ _ => neg_lt_neg
          rw [valueOf_negative, valueOf_negative, reversed.cmp_map_eq, ← cmp_swap, ← magnitudes]
          rfl
        | positive =>
          refine less ?_
          rw [valueOf_negative, valueOf_positive]
          exact (neg_neg_of_pos above).trans above'
      | positive =>
        cases t with
        | negative =>
          refine greater ?_
          rw [valueOf_negative, valueOf_positive]
          exact (neg_neg_of_pos above').trans above
        | positive =>
          rw [valueOf_positive, valueOf_positive, ← magnitudes]
          rfl

end RoundScoring.Binary64
