import RoundScoring.Proofs.Binary64.Logarithm

/-!
Powers of two and of ten. The fraction of an exponent gives a factor between one and the base, by a
series that grows with it; the whole part gives an exact power. So it is known from an exponent when
its power is too large, when it vanishes and when it is a number above zero.
-/

namespace RoundScoring.Binary64

theorem factorialSeries_mono {t t' term term' : ℕ} (ordered : t ≤ t') (terms divisor : ℕ)
    (first : term ≤ term') :
    factorialSeries t terms term divisor ≤ factorialSeries t' terms term' divisor := by
  induction terms generalizing term term' divisor with
  | zero => exact le_rfl
  | succ terms ih =>
    refine Nat.add_le_add first (ih _ (Nat.div_le_div_right ?_))
    rw [Nat.shiftRight_eq_div_pow, Nat.shiftRight_eq_div_pow]
    exact Nat.div_le_div_right (Nat.mul_le_mul first ordered)

def exponential (t : ℕ) : ℕ := factorialSeries t 56 (powerOfTwo places) 1

theorem exponential_mono {t t' : ℕ} (ordered : t ≤ t') : exponential t ≤ exponential t' :=
  factorialSeries_mono ordered _ _ le_rfl

theorem le_exponential (t : ℕ) : 2 ^ places ≤ exponential t := by
  have first : exponential t = powerOfTwo places +
    factorialSeries t 55 (((powerOfTwo places * t) >>> places) / 1) 2 := rfl
  rw [first, powerOfTwo_eq]
  exact Nat.le_add_right _ _

theorem roundsTo_powerOf {base : ℕ} (positive : 0 < base) (log : ℕ) (whole : ℤ)
    (part width : ℕ) :
    RoundsTo (powerOf base log whole part width)
      (exponential ((log * part) >>> width) / 2 ^ places * base ^ whole) := by
  have unfolded : powerOf base log whole part width =
      if whole < 0 then
        ofQuotient false (exponential ((log * part) >>> width)) ((base ^ whole.natAbs) <<< places)
      else ofQuotient false (exponential ((log * part) >>> width) * base ^ whole.natAbs)
        (powerOfTwo places) := rfl
  rw [unfolded]
  generalize exponential ((log * part) >>> width) = scaled
  split
  next negative =>
    have rounds := roundsTo_ofQuotient false scaled (n := (base ^ whole.natAbs) <<< places)
      (by rw [Nat.shiftLeft_eq]; positivity)
    have power : (base : ℝ) ^ whole = ((base : ℝ) ^ whole.natAbs)⁻¹ := by
      rw [← zpow_natCast, ← zpow_neg]
      congr 1
      omega
    have same : (scaled : ℝ) / 2 ^ places * base ^ whole =
        scaled / ((base ^ whole.natAbs) <<< places : ℕ) := by
      rw [power, Nat.shiftLeft_eq, ← div_eq_mul_inv, div_div, Nat.cast_mul, Nat.cast_pow,
        Nat.cast_pow, Nat.cast_ofNat, mul_comm]
    rw [if_neg Bool.false_ne_true, one_mul, ← same] at rounds
    exact rounds
  next nonneg =>
    have rounds := roundsTo_ofQuotient false (scaled * base ^ whole.natAbs)
      (n := powerOfTwo places) (by rw [powerOfTwo_eq]; positivity)
    have power : (base : ℝ) ^ whole = (base : ℝ) ^ whole.natAbs := by
      rw [← zpow_natCast]
      congr 1
      omega
    have same : (scaled : ℝ) / 2 ^ places * base ^ whole =
        (scaled * base ^ whole.natAbs : ℕ) / (powerOfTwo places : ℕ) := by
      rw [power, powerOfTwo_eq, div_mul_eq_mul_div, Nat.cast_mul, Nat.cast_pow, Nat.cast_pow,
        Nat.cast_ofNat]
    rw [if_neg Bool.false_ne_true, one_mul, ← same] at rounds
    exact rounds

theorem exists_content {x : Float} (finite : x.isFinite = true) :
    ∃ negative m e, content x = .finite negative m e := by
  have canonical := canonical_of_isFinite finite
  unfold content
  generalize x.toModel.unpack = u at canonical
  cases u with
  | infinity => exact canonical.elim
  | notANumber => exact canonical.elim
  | zero sign => exact ⟨_, _, _, rfl⟩
  | finite sign m e positive => exact ⟨_, _, _, rfl⟩

/-- An exponent in reach, cut into its whole part and a fraction. -/
structure Cut (x : Float) (whole : ℤ) (part width : ℕ) : Prop where
  value_eq : value x = whole + part / 2 ^ width
  part_lt : part < 2 ^ width
  power?_eq (base log : ℕ) : power? base log x =
    if (powerOf base log whole part width).isFinite then
      some (powerOf base log whole part width) else none

section Reach

variable {x : Float} (finite : x.isFinite = true)

include finite

theorem not_le_of_value_lt (high : value x < 1024) : ¬(1024.0 : Float) ≤ x := by
  have limit : content 1024.0 = .finite false (2 ^ 52) (-42) := by decide
  obtain ⟨limitFinite, limitValue⟩ := value_of_content limit
  rw [le_iff limitFinite finite, limitValue, not_le]
  refine high.trans_le ?_
  norm_num

theorem not_le_of_lt_value (low : -1100 < value x) : ¬x ≤ (-1100.0 : Float) := by
  have limit : content (-1100.0) = .finite true (1100 * 2 ^ 42) (-42) := by decide
  obtain ⟨limitFinite, limitValue⟩ := value_of_content limit
  rw [le_iff finite limitFinite, limitValue, not_le]
  refine lt_of_le_of_lt ?_ low
  norm_num

end Reach

theorem value_eq_quotient {x : Float} {negative : Bool} {m : ℕ} {e : ℤ}
    (known : content x = .finite negative m e) :
    value x = ((if negative then -(m * powerOfTwo e.toNat : ℕ)
      else (m * powerOfTwo e.toNat : ℕ) : ℤ) : ℝ) / 2 ^ (-e).toNat := by
  have power : (2 : ℝ) ^ e = 2 ^ e.toNat / 2 ^ (-e).toNat := by
    rw [← zpow_natCast, ← zpow_natCast, ← zpow_sub₀ two_ne_zero]
    congr 1
    omega
  rw [(value_of_content known).2, power, powerOfTwo_eq]
  cases negative
  · rw [if_neg Bool.false_ne_true, if_neg Bool.false_ne_true, one_mul]
    push_cast
    rw [mul_div_assoc]
  · rw [if_pos rfl, if_pos rfl, neg_one_mul]
    push_cast
    rw [neg_div, mul_div_assoc]

theorem quotient_eq_add (shifted : ℤ) (width : ℕ) :
    (shifted / 2 ^ width : ℝ) = (shifted / (powerOfTwo width : ℕ) : ℤ) +
      ((shifted % (powerOfTwo width : ℕ)).toNat : ℝ) / 2 ^ width ∧
    (shifted % (powerOfTwo width : ℕ)).toNat < 2 ^ width := by
  have unit : (0 : ℤ) < (powerOfTwo width : ℕ) := by
    rw [powerOfTwo_eq]
    positivity
  have nonneg := Int.emod_nonneg shifted unit.ne'
  have below := Int.emod_lt_of_pos shifted unit
  constructor
  · have parts := congrArg (Int.cast (R := ℝ)) (Int.mul_ediv_add_emod shifted (powerOfTwo width : ℕ))
    have cast := congrArg (Int.cast (R := ℝ)) (Int.toNat_of_nonneg nonneg)
    rw [Int.cast_natCast] at cast
    rw [← parts, cast, Int.cast_add, Int.cast_mul, powerOfTwo_eq, add_div]
    push_cast
    rw [mul_div_cancel_left₀ _ (by positivity)]
  · rw [powerOfTwo_eq] at nonneg below ⊢
    omega

theorem exists_cut {x : Float} (finite : x.isFinite = true) (low : -1100 < value x)
    (high : value x < 1024) : ∃ whole part width, Cut x whole part width := by
  obtain ⟨negative, m, e, known⟩ := exists_content finite
  obtain ⟨parts, below⟩ := quotient_eq_add
    (if negative then -(m * powerOfTwo e.toNat : ℕ) else (m * powerOfTwo e.toNat : ℕ)) (-e).toNat
  refine ⟨_, _, (-e).toNat, (value_eq_quotient known).trans parts, below, fun base log => ?_⟩
  unfold power?
  rw [known]
  dsimp only
  rw [if_neg (not_le_of_value_lt finite high), if_neg (not_le_of_lt_value finite low)]

theorem shift_le {log part width k : ℕ} (positive : 0 < k) (few : k * part ≤ 2 ^ width) :
    (log * part) >>> width ≤ log / k := by
  rw [Nat.shiftRight_eq_div_pow, Nat.le_div_iff_mul_le positive]
  refine Nat.le_of_mul_le_mul_right ?_ (Nat.two_pow_pos width)
  calc log * part / 2 ^ width * k * 2 ^ width = log * part / 2 ^ width * 2 ^ width * k := by ring
    _ ≤ log * part * k := Nat.mul_le_mul_right k (Nat.div_mul_le_self _ _)
    _ = log * (k * part) := by ring
    _ ≤ log * 2 ^ width := Nat.mul_le_mul_left log few

theorem le_shift {log part width k : ℕ} (many : 2 ^ width ≤ k * part) :
    log / k ≤ (log * part) >>> width := by
  rw [Nat.shiftRight_eq_div_pow, Nat.le_div_iff_mul_le (by positivity)]
  calc log / k * 2 ^ width ≤ log / k * (k * part) := Nat.mul_le_mul_left _ many
    _ = log / k * k * part := by ring
    _ ≤ log * part := Nat.mul_le_mul_right _ (Nat.div_mul_le_self _ _)

theorem half_power_above : 2 ^ places * 10 ^ 324 < exponential (log10 / 2) * 2 ^ 1075 := by
  decide +kernel

theorem quarter_power_below :
    exponential (log10 / 4) * 10 ^ 308 ≤ 255 * 2 ^ 1016 * 2 ^ places := by
  decide +kernel

theorem whole_power_below : exponential log10 * 10 ^ 307 ≤ 255 * 2 ^ 1016 * 2 ^ places := by
  decide +kernel

section Ten

variable {whole : ℤ} {part width : ℕ}

theorem power_pos (low : -324 < whole ∨ whole = -324 ∧ 2 ^ width ≤ 2 * part) :
    2 ^ (-1075 : ℤ) < (exponential ((log10 * part) >>> width) / 2 ^ places * 10 ^ whole : ℝ) := by
  have unit : (0 : ℝ) < 2 ^ places := by positivity
  rcases low with above | ⟨rfl, many⟩
  · have factor : (1 : ℝ) ≤ exponential ((log10 * part) >>> width) / 2 ^ places := by
      rw [one_le_div unit]
      exact_mod_cast le_exponential _
    have least : (2 : ℝ) ^ (-1075 : ℤ) < 10 ^ (-323 : ℤ) := by
      have powers : (2 : ℝ) ^ (-1075 : ℤ) = 1 / 2 ^ 1075 ∧ (10 : ℝ) ^ (-323 : ℤ) = 1 / 10 ^ 323 := by
        constructor <;> rw [zpow_neg, one_div] <;> norm_cast
      have enough : 10 ^ 323 < 2 ^ 1075 := by decide +kernel
      rw [powers.1, powers.2]
      exact one_div_lt_one_div_of_lt (by positivity) (by exact_mod_cast enough)
    calc (2 : ℝ) ^ (-1075 : ℤ) < 10 ^ (-323 : ℤ) := least
      _ ≤ 10 ^ whole := zpow_le_zpow_right₀ (by norm_num) (by omega)
      _ ≤ exponential ((log10 * part) >>> width) / 2 ^ places * 10 ^ whole :=
        le_mul_of_one_le_left (zpow_pos (by norm_num) _).le factor
  · have factor : (exponential (log10 / 2) : ℝ) ≤ exponential ((log10 * part) >>> width) := by
      exact_mod_cast exponential_mono (le_shift many)
    have enough : (2 ^ places * 10 ^ 324 : ℝ) < exponential (log10 / 2) * 2 ^ 1075 := by
      exact_mod_cast half_power_above
    generalize (exponential (log10 / 2) : ℝ) = half at factor enough
    generalize (exponential ((log10 * part) >>> width) : ℝ) = scaled at factor ⊢
    have powers : (2 : ℝ) ^ (-1075 : ℤ) = 1 / 2 ^ 1075 ∧ (10 : ℝ) ^ (-324 : ℤ) = 1 / 10 ^ 324 := by
      constructor <;> rw [zpow_neg, one_div] <;> norm_cast
    rw [powers.1, powers.2, div_mul_div_comm, mul_one, div_lt_div_iff₀ (by positivity) (by positivity),
      one_mul]
    exact enough.trans_le (mul_le_mul_of_nonneg_right factor (by positivity))

theorem power_le (fraction : part ≤ 2 ^ width)
    (high : whole ≤ 307 ∨ whole = 308 ∧ 4 * part ≤ 2 ^ width) :
    (exponential ((log10 * part) >>> width) / 2 ^ places * 10 ^ whole : ℝ) ≤ 255 * 2 ^ (1016 : ℤ) := by
  have unit : (0 : ℝ) < 2 ^ places := by positivity
  rcases high with below | ⟨rfl, few⟩
  · have factor : (exponential ((log10 * part) >>> width) : ℝ) ≤ exponential log10 := by
      have shifted : (log10 * part) >>> width ≤ log10 / 1 := shift_le one_pos (by simpa using fraction)
      rw [Nat.div_one] at shifted
      exact_mod_cast exponential_mono shifted
    have enough : (exponential log10 * 10 ^ 307 : ℝ) ≤ 255 * 2 ^ (1016 : ℤ) * 2 ^ places := by
      exact_mod_cast whole_power_below
    have power : (10 : ℝ) ^ whole ≤ 10 ^ 307 := by
      rw [← zpow_natCast]
      exact zpow_le_zpow_right₀ (by norm_num) below
    rw [div_mul_eq_mul_div, div_le_iff₀ unit]
    exact (mul_le_mul factor power (zpow_pos (by norm_num) _).le (Nat.cast_nonneg _)).trans enough
  · have factor : (exponential ((log10 * part) >>> width) : ℝ) ≤ exponential (log10 / 4) := by
      exact_mod_cast exponential_mono (shift_le four_pos few)
    have enough : (exponential (log10 / 4) * 10 ^ 308 : ℝ) ≤ 255 * 2 ^ (1016 : ℤ) * 2 ^ places := by
      exact_mod_cast quarter_power_below
    rw [div_mul_eq_mul_div, div_le_iff₀ unit]
    rw [zpow_ofNat]
    exact (mul_le_mul_of_nonneg_right factor (by positivity)).trans enough

end Ten

theorem representable_limit : Representable (255 * 2 ^ (1016 : ℤ)) := by
  refine ⟨⟨255, 1016, by norm_num, by norm_num, by rw [Int.cast_ofNat]⟩, ?_⟩
  rw [abs_of_pos (mul_pos (by norm_num) (two_zpow_pos _))]
  calc (255 : ℝ) * 2 ^ (1016 : ℤ) < 2 ^ (8 : ℤ) * 2 ^ (1016 : ℤ) :=
        mul_lt_mul_of_pos_right (by norm_num) (two_zpow_pos _)
    _ = 2 ^ (1024 : ℤ) := by rw [← zpow_add₀ two_ne_zero]; rfl

namespace Cut

variable {x : Float} {whole : ℤ} {part width : ℕ} (cut : Cut x whole part width)

include cut

theorem fraction_lt : (part : ℝ) / 2 ^ width < 1 := by
  rw [div_lt_one (by positivity)]
  exact_mod_cast cut.part_lt

theorem power_pos (low : -647 / 2 ≤ value x) :
    2 ^ (-1075 : ℤ) < (exponential ((log10 * part) >>> width) / 2 ^ places * 10 ^ whole : ℝ) := by
  have fraction := cut.fraction_lt
  rw [cut.value_eq] at low
  have least : -325 < whole := by exact_mod_cast (by linarith : (-325 : ℝ) < whole)
  rcases (by omega : -324 < whole ∨ whole = -324) with above | rfl
  · exact Binary64.power_pos (.inl above)
  · push_cast at low
    have half : 1 / 2 ≤ (part : ℝ) / 2 ^ width := by linarith
    rw [div_le_div_iff₀ two_pos (by positivity), one_mul, mul_comm] at half
    exact Binary64.power_pos (.inr ⟨rfl, by exact_mod_cast half⟩)

theorem power_le (high : value x ≤ 1233 / 4) :
    (exponential ((log10 * part) >>> width) / 2 ^ places * 10 ^ whole : ℝ) ≤
      255 * 2 ^ (1016 : ℤ) := by
  have nonneg : (0 : ℝ) ≤ part / 2 ^ width := by positivity
  rw [cut.value_eq] at high
  have most : whole < 309 := by exact_mod_cast (by linarith : (whole : ℝ) < 309)
  rcases (by omega : whole ≤ 307 ∨ whole = 308) with below | rfl
  · exact Binary64.power_le cut.part_lt.le (.inl below)
  · push_cast at high
    have quarter : (part : ℝ) / 2 ^ width ≤ 1 / 4 := by linarith
    rw [div_le_div_iff₀ (by positivity) four_pos, one_mul, mul_comm] at quarter
    exact Binary64.power_le cut.part_lt.le (.inr ⟨rfl, by exact_mod_cast quarter⟩)

end Cut

theorem powerOfTen?_cases {x : Float} (finite : x.isFinite = true) (low : -647 / 2 ≤ value x)
    (high : value x < 1024) :
    powerOfTen? x = none ∨ ∃ y, powerOfTen? x = some y ∧ y.isFinite = true ∧ 0 < value y := by
  obtain ⟨whole, part, width, cut⟩ := exists_cut finite (by linarith) high
  have rounds := roundsTo_powerOf (show 0 < 10 by norm_num) log10 whole part width
  have result : powerOfTen? x = _ := cut.power?_eq 10 log10
  rw [result]
  by_cases fits : (powerOf 10 log10 whole part width).isFinite = true
  · rw [if_pos fits]
    refine .inr ⟨_, rfl, fits, ?_⟩
    rw [rounds.value_eq fits]
    exact nearest_pos (by exact_mod_cast cut.power_pos low)
  · exact .inl (if_neg fits)

theorem powerOfTen?_of_le {x : Float} (finite : x.isFinite = true) (low : -647 / 2 ≤ value x)
    (high : value x ≤ 1233 / 4) :
    ∃ y, powerOfTen? x = some y ∧ y.isFinite = true ∧ 0 < value y := by
  obtain ⟨whole, part, width, cut⟩ := exists_cut finite (by linarith) (by linarith)
  have rounds := roundsTo_powerOf (show 0 < 10 by norm_num) log10 whole part width
  have result : powerOfTen? x = _ := cut.power?_eq 10 log10
  have positive := cut.power_pos low
  have within : Within 0 (255 * 2 ^ (1016 : ℤ)) (powerOf 10 log10 whole part width) := rounds.within {
    least := by exact_mod_cast representable_natCast (n := 0) (by norm_num)
    greatest := representable_limit
    low_le := by exact_mod_cast ((two_zpow_pos _).trans positive).le
    le_high := by exact_mod_cast cut.power_le high }
  rw [result, if_pos within.finite]
  refine ⟨_, rfl, within.finite, ?_⟩
  rw [rounds.value_eq within.finite]
  exact nearest_pos (by exact_mod_cast positive)

theorem representable_two_pow {n : ℕ} (few : n ≤ 1023) : Representable (2 ^ n) := by
  rw [← zpow_natCast]
  exact representable_two_zpow (by omega) (by omega)

theorem powerOfTwo?_natCast {x : Float} {n : ℕ} (finite : x.isFinite = true) (worth : value x = n)
    (few : n ≤ 1023) : ∃ y, powerOfTwo? x = some y ∧ y.isFinite = true ∧ value y = 2 ^ n := by
  have most : (n : ℝ) ≤ 1023 := by exact_mod_cast few
  obtain ⟨whole, part, width, cut⟩ := exists_cut finite
    (by linarith [Nat.cast_nonneg (α := ℝ) n]) (by linarith)
  have fraction := cut.fraction_lt
  have nonneg : (0 : ℝ) ≤ part / 2 ^ width := by positivity
  have parts := cut.value_eq
  rw [worth] at parts
  have same : whole = n := by
    have low : whole ≤ n := by exact_mod_cast (by linarith : (whole : ℝ) ≤ n)
    have high : (n : ℤ) < whole + 1 := by exact_mod_cast (by linarith : (n : ℝ) < whole + 1)
    omega
  subst same
  have none : part = 0 := by
    rw [Int.cast_natCast] at parts
    have zero : (part : ℝ) / 2 ^ width = 0 := by linarith
    rw [div_eq_zero_iff, or_iff_left (by positivity)] at zero
    exact_mod_cast zero
  subst none
  have rounds := roundsTo_powerOf two_pos log2 n 0 width
  have unit : exponential ((log2 * 0) >>> width) = 2 ^ places := by
    rw [Nat.mul_zero, Nat.zero_shiftRight]
    decide
  rw [unit, Nat.cast_pow, Nat.cast_ofNat, div_self (by positivity), one_mul, zpow_natCast] at rounds
  obtain ⟨fits, exactly⟩ := rounds.eq_of_representable (representable_two_pow few)
  have result : powerOfTwo? x = _ := cut.power?_eq 2 log2
  rw [result, if_pos fits]
  exact ⟨_, rfl, fits, exactly⟩

end RoundScoring.Binary64
