import RoundScoring.Binary64.Elementary
import RoundScoring.Proofs.Binary64.Arithmetic

/-!
Bounds on logarithms. The series grows with what it is summed for, so a logarithm lies between those
of two powers of two, and closer ones come from closer bounds on the significand.
-/

namespace RoundScoring.Binary64

theorem powerOfTwo_eq (n : ℕ) : powerOfTwo n = 2 ^ n := Nat.one_shiftLeft n

theorem oddSeries_mono {square square' power power' : ℕ} (squares : square ≤ square')
    (powers : power ≤ power') (terms odd : ℕ) :
    oddSeries square terms power odd ≤ oddSeries square' terms power' odd := by
  induction terms generalizing power power' odd with
  | zero => exact le_rfl
  | succ terms ih =>
    refine Nat.add_le_add (Nat.div_le_div_right powers) (ih ?_ _)
    rw [Nat.shiftRight_eq_div_pow, Nat.shiftRight_eq_div_pow]
    exact Nat.div_le_div_right (Nat.mul_le_mul powers squares)

theorem logOfQuotient_mono {m n m' n' : ℕ} (positive : 0 < n) (positive' : 0 < n') (least : n ≤ m)
    (least' : n' ≤ m') (ordered : m * n' ≤ m' * n) : logOfQuotient m n ≤ logOfQuotient m' n' := by
  have argument : ((m - n) <<< places) / (m + n) ≤ ((m' - n') <<< places) / (m' + n') := by
    obtain ⟨d, rfl⟩ := Nat.exists_eq_add_of_le least
    obtain ⟨d', rfl⟩ := Nat.exists_eq_add_of_le least'
    rw [Nat.add_sub_cancel_left, Nat.add_sub_cancel_left, Nat.shiftLeft_eq, Nat.shiftLeft_eq,
      Nat.le_div_iff_mul_le (by omega)]
    refine Nat.le_of_mul_le_mul_right ?_ (by omega : 0 < n + d + n)
    have cross : d * (n' + d' + n') ≤ d' * (n + d + n) := by nlinarith
    calc d * 2 ^ places / (n + d + n) * (n' + d' + n') * (n + d + n)
        = d * 2 ^ places / (n + d + n) * (n + d + n) * (n' + d' + n') := by ring
      _ ≤ d * 2 ^ places * (n' + d' + n') := Nat.mul_le_mul_right _ (Nat.div_mul_le_self _ _)
      _ = d * (n' + d' + n') * 2 ^ places := by ring
      _ ≤ d' * (n + d + n) * 2 ^ places := Nat.mul_le_mul_right _ cross
      _ = d' * 2 ^ places * (n + d + n) := by ring
  unfold logOfQuotient
  dsimp only
  refine Nat.mul_le_mul_left 2 (oddSeries_mono ?_ argument _ _)
  rw [Nat.shiftRight_eq_div_pow, Nat.shiftRight_eq_div_pow]
  exact Nat.div_le_div_right (Nat.mul_le_mul argument argument)

def naturalOf (significand : ℕ) (exponent : ℤ) : ℤ :=
  (exponent + significand.log2) * log2 + logOfQuotient significand (powerOfTwo significand.log2)

theorem logarithmOf_eq (significand : ℕ) (exponent : ℤ) :
    logarithmOf significand exponent = ofQuotient (naturalOf significand exponent < 0)
      (naturalOf significand exponent).natAbs log10 := rfl

theorem log10_pos : 0 < log10 := by decide

theorem naturalOf_ge {significand : ℕ} {exponent : ℤ} :
    (exponent + significand.log2) * log2 ≤ naturalOf significand exponent := by
  unfold naturalOf
  omega

theorem naturalOf_le {significand : ℕ} (positive : 0 < significand) (exponent : ℤ) :
    naturalOf significand exponent ≤ (exponent + significand.log2 + 1) * log2 := by
  have below : logOfQuotient significand (powerOfTwo significand.log2) ≤ log2 := by
    rw [powerOfTwo_eq]
    refine logOfQuotient_mono (Nat.two_pow_pos _) one_pos (Nat.log2_self_le positive.ne') one_le_two ?_
    have above := Nat.lt_log2_self (n := significand)
    rw [pow_succ] at above
    omega
  unfold naturalOf
  rw [add_one_mul]
  omega

/-- A number above zero, as a significand and a power of two. -/
structure Split (x : Float) (m : ℕ) (e : ℤ) : Prop where
  content_eq : content x = .finite false m e
  positive : 0 < m
  few : m < 2 ^ 53
  least : -1074 ≤ e
  most : e ≤ 971
  value_eq : value x = m * 2 ^ e

theorem exists_split {x : Float} (finite : x.isFinite = true) (positive : 0 < value x) :
    ∃ m e, Split x m e := by
  obtain ⟨canonical, fits⟩ := canonical_unpack finite
  have worth : value x = valueOf x.toModel.unpack := rfl
  rw [worth] at positive
  generalize unpacked : x.toModel.unpack = u at canonical fits worth positive
  cases u with
  | infinity => exact canonical.elim
  | notANumber => exact canonical.elim
  | zero sign => exact (lt_irrefl _ positive).elim
  | finite sign m e above =>
    cases sign with
    | negative =>
      rw [valueOf_negative] at positive
      have below : (0 : ℝ) < m * 2 ^ e := mul_pos (by exact_mod_cast above) (two_zpow_pos e)
      linarith
    | positive =>
      rw [valueOf_positive] at worth
      have known : content x = .finite false m e := by
        unfold content
        rw [unpacked]
        rfl
      exact ⟨m, e, known, above, canonical.1, canonical.2.1, fits, worth⟩

theorem log2_le_of_lt {m k : ℕ} (positive : 0 < m) (few : m < 2 ^ (k + 1)) : m.log2 ≤ k :=
  Nat.lt_succ_iff.mp ((Nat.log2_lt positive.ne').mpr few)

namespace Split

variable {x : Float} {m : ℕ} {e : ℤ} (split : Split x m e)

include split

theorem natural_bounds : -1074 * log2 ≤ naturalOf m e ∧ naturalOf m e ≤ 1024 * log2 := by
  have width := log2_le_of_lt split.positive split.few
  have least := split.least
  have most := split.most
  have low : (e + m.log2) * log2 ≤ naturalOf m e := naturalOf_ge
  have high := naturalOf_le split.positive e
  have unit : (0 : ℤ) ≤ log2 := Int.natCast_nonneg _
  constructor <;> nlinarith

theorem roundsTo_logarithm : RoundsTo (logarithm x) (naturalOf m e / log10) := by
  have unfolded : logarithm x = logarithmOf m e := by
    unfold logarithm
    rw [split.content_eq]
    obtain ⟨k, rfl⟩ := Nat.exists_eq_succ_of_ne_zero split.positive.ne'
    rfl
  have rounds := roundsTo_ofQuotient (naturalOf m e < 0) (naturalOf m e).natAbs log10_pos
  have signed : (if decide (naturalOf m e < 0) = true then -1 else 1) *
      ((naturalOf m e).natAbs / log10 : ℝ) = naturalOf m e / log10 := by
    rw [← mul_div_assoc]
    congr 1
    rcases lt_or_ge (naturalOf m e) 0 with negative | nonneg
    · rw [if_pos (decide_eq_true negative), Nat.cast_natAbs, abs_of_neg negative]
      push_cast
      ring
    · rw [if_neg (by simpa using nonneg), Nat.cast_natAbs, abs_of_nonneg nonneg, one_mul]
  rw [signed] at rounds
  rw [unfolded, logarithmOf_eq]
  exact rounds

theorem within_logarithm {k : ℤ} (few : |k| ≤ 2 ^ 53)
    (high : naturalOf m e * 16 ≤ k * log10) :
    Within ((-5173 : ℤ) / 16) (k / 16) (logarithm x) := by
  have unit : (0 : ℝ) < log10 := by exact_mod_cast log10_pos
  have ratio : 16 * 1074 * log2 ≤ 5173 * log10 := by decide
  have low : -5173 * (log10 : ℤ) ≤ naturalOf m e * 16 := by
    have bounds := split.natural_bounds
    omega
  refine split.roundsTo_logarithm.within {
    least := representable_div_sixteen (by norm_num)
    greatest := representable_div_sixteen few
    low_le := ?_
    le_high := ?_ }
  · rw [div_le_div_iff₀ (by norm_num) unit]
    exact_mod_cast low
  · rw [div_le_div_iff₀ unit (by norm_num)]
    exact_mod_cast high

theorem natural_le {bound : ℕ} (most : value x ≤ bound * 2 ^ (971 : ℤ))
    (normal : 2 ^ 52 ≤ bound) :
    naturalOf m e ≤ 1023 * log2 + logOfQuotient bound (2 ^ 52) := by
  have unit : (0 : ℤ) ≤ log2 := Int.natCast_nonneg _
  have width := log2_le_of_lt split.positive split.few
  have exponent := split.most
  rcases lt_or_ge (e + m.log2) 1023 with narrow | wide
  · calc naturalOf m e ≤ (e + m.log2 + 1) * log2 := naturalOf_le split.positive e
      _ ≤ 1023 * log2 := mul_le_mul_of_nonneg_right (by omega) unit
      _ ≤ 1023 * log2 + logOfQuotient bound (2 ^ 52) :=
          Int.le_add_of_nonneg_right (Int.natCast_nonneg _)
  · have same : e = 971 := by omega
    have full : m.log2 = 52 := by omega
    subst same
    have small : m ≤ bound := by
      rw [split.value_eq] at most
      exact_mod_cast le_of_mul_le_mul_right most (two_zpow_pos 971)
    have least : 2 ^ 52 ≤ m := by
      rw [← full]
      exact Nat.log2_self_le split.positive.ne'
    have smaller : logOfQuotient m (2 ^ 52) ≤ logOfQuotient bound (2 ^ 52) :=
      logOfQuotient_mono (by norm_num) (by norm_num) least normal (Nat.mul_le_mul_right _ small)
    unfold naturalOf
    rw [full, powerOfTwo_eq]
    exact Int.add_le_add_left (Int.ofNat_le.mpr smaller) _

end Split

theorem within_logarithm {x : Float} (finite : x.isFinite = true) (positive : 0 < value x) :
    Within ((-5173 : ℤ) / 16) ((4933 : ℤ) / 16) (logarithm x) := by
  obtain ⟨m, e, split⟩ := exists_split finite positive
  have ratio : 16 * 1024 * log2 ≤ 4933 * log10 := by decide
  have bounds := split.natural_bounds
  exact split.within_logarithm (by norm_num) (by omega)

theorem within_logarithm_of_le {x : Float} (finite : x.isFinite = true) (positive : 0 < value x)
    (bounded : x ≤ 1e308) : Within ((-5173 : ℤ) / 16) ((4929 : ℤ) / 16) (logarithm x) := by
  obtain ⟨m, e, split⟩ := exists_split finite positive
  have limit : content 1e308 = .finite false 0x11ccf385ebc8a0 971 := by decide +kernel
  obtain ⟨limitFinite, limitValue⟩ := value_of_content limit
  have below := (le_iff finite limitFinite).mp bounded
  rw [limitValue, if_neg Bool.false_ne_true, one_mul] at below
  have ratio : 16 * (1023 * log2 + logOfQuotient 0x11ccf385ebc8a0 (2 ^ 52)) ≤ 4929 * log10 := by
    decide
  have high := split.natural_le below (by norm_num)
  exact split.within_logarithm (by norm_num) (by omega)

end RoundScoring.Binary64
