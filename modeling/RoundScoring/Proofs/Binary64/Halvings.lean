import RoundScoring.Loss.Measure
import RoundScoring.Proofs.Binary64.Overflowing

/-!
Powers of two in binary64 numbers, and the share that is left of a whole which is halved so often. A
power grows with its exponent: within a unit the series grows, and at the end of a unit it has not
passed two. Below an exponent of 1024 all powers are numbers, since the last exponent before it is
far enough away; from there on none is, while the share itself would be a number up to 1075 halvings.
-/

namespace RoundScoring

namespace Binary64

theorem exponential_log2_le : exponential log2 ≤ 2 * 2 ^ places := by
  decide

theorem exponential_last_le :
    exponential ((log2 * (2 ^ 43 - 1)) >>> 43) * 2 ^ 1023 ≤ (2 ^ 50 - 1) * 2 ^ 974 * 2 ^ places := by
  decide +kernel

theorem shift_mono {log part width part' width' : ℕ}
    (ordered : part * 2 ^ width' ≤ part' * 2 ^ width) :
    (log * part) >>> width ≤ (log * part') >>> width' := by
  rw [Nat.shiftRight_eq_div_pow, Nat.shiftRight_eq_div_pow,
    Nat.le_div_iff_mul_le (Nat.two_pow_pos width')]
  refine Nat.le_of_mul_le_mul_right ?_ (Nat.two_pow_pos width)
  calc log * part / 2 ^ width * 2 ^ width' * 2 ^ width
      = log * part / 2 ^ width * 2 ^ width * 2 ^ width' := by ring
    _ ≤ log * part * 2 ^ width' := Nat.mul_le_mul_right _ (Nat.div_mul_le_self _ _)
    _ = log * (part * 2 ^ width') := by ring
    _ ≤ log * (part' * 2 ^ width) := Nat.mul_le_mul_left log ordered
    _ = log * part' * 2 ^ width := by ring

theorem one_le_factor (t : ℕ) : (1 : ℝ) ≤ exponential t / 2 ^ places := by
  rw [one_le_div (by positivity)]
  exact_mod_cast le_exponential t

theorem factor_le_two {part width : ℕ} (fraction : part ≤ 2 ^ width) :
    (exponential ((log2 * part) >>> width) / 2 ^ places : ℝ) ≤ 2 := by
  have shifted : (log2 * part) >>> width ≤ log2 / 1 := shift_le one_pos (by simpa using fraction)
  rw [Nat.div_one] at shifted
  rw [div_le_iff₀ (by positivity)]
  exact_mod_cast (exponential_mono shifted).trans exponential_log2_le

namespace Cut

variable {x y : Float} {whole whole' : ℤ} {part width part' width' : ℕ}

theorem power_le_power (cut : Cut x whole part width) (cut' : Cut y whole' part' width')
    (ordered : value x ≤ value y) :
    (exponential ((log2 * part) >>> width) / 2 ^ places * 2 ^ whole : ℝ) ≤
      exponential ((log2 * part') >>> width') / 2 ^ places * 2 ^ whole' := by
  have fraction := cut.fraction_lt
  have fraction' := cut'.fraction_lt
  have nonneg : (0 : ℝ) ≤ part / 2 ^ width := by positivity
  have nonneg' : (0 : ℝ) ≤ part' / 2 ^ width' := by positivity
  rw [cut.value_eq, cut'.value_eq] at ordered
  have wholes : whole < whole' + 1 := by
    exact_mod_cast (by linarith : (whole : ℝ) < whole' + 1)
  rcases (Int.lt_add_one_iff.mp wholes).eq_or_lt with rfl | below
  · have parts : (part : ℝ) / 2 ^ width ≤ part' / 2 ^ width' := by linarith
    rw [div_le_div_iff₀ (by positivity) (by positivity)] at parts
    have series : exponential ((log2 * part) >>> width) ≤ exponential ((log2 * part') >>> width') :=
      exponential_mono (shift_mono (by exact_mod_cast parts))
    gcongr
  · calc (exponential ((log2 * part) >>> width) / 2 ^ places * 2 ^ whole : ℝ)
        ≤ 2 * 2 ^ whole :=
          mul_le_mul_of_nonneg_right (factor_le_two cut.part_lt.le) (two_zpow_pos _).le
      _ = 2 ^ (whole + 1) := by rw [zpow_add_one₀ two_ne_zero, mul_comm]
      _ ≤ 2 ^ whole' := zpow_le_zpow_right₀ one_le_two below
      _ ≤ exponential ((log2 * part') >>> width') / 2 ^ places * 2 ^ whole' :=
          le_mul_of_one_le_left (two_zpow_pos _).le (one_le_factor _)

theorem one_le_power (cut : Cut x whole part width) (nonneg : 0 ≤ value x) :
    (1 : ℝ) ≤ exponential ((log2 * part) >>> width) / 2 ^ places * 2 ^ whole := by
  have fraction := cut.fraction_lt
  rw [cut.value_eq] at nonneg
  have least : -1 < whole := by exact_mod_cast (by linarith : (-1 : ℝ) < whole)
  exact one_le_mul_of_one_le_of_one_le (one_le_factor _)
    (one_le_zpow₀ one_le_two (by omega))

end Cut

theorem representable_last : Representable ((2 ^ 53 - 1) * 2 ^ (-43 : ℤ)) := by
  have dyadic := representable_dyadic (k := 2 ^ 53 - 1) (e := -43) (by norm_num) (by norm_num)
    (by norm_num)
  exact_mod_cast dyadic

theorem representable_great : Representable ((2 ^ 50 - 1) * 2 ^ (974 : ℤ)) := by
  refine ⟨⟨2 ^ 50 - 1, 974, by norm_num, by norm_num, by norm_num⟩, ?_⟩
  rw [abs_of_pos (mul_pos (by norm_num) (two_zpow_pos _))]
  calc ((2 : ℝ) ^ 50 - 1) * 2 ^ (974 : ℤ) < 2 ^ (50 : ℤ) * 2 ^ (974 : ℤ) :=
        mul_lt_mul_of_pos_right (by norm_num) (two_zpow_pos _)
    _ = 2 ^ (1024 : ℤ) := by rw [← zpow_add₀ two_ne_zero]; rfl

theorem Cut.power_le_great {x : Float} {whole : ℤ} {part width : ℕ} (cut : Cut x whole part width)
    (last : value x ≤ (2 ^ 53 - 1) * 2 ^ (-43 : ℤ)) :
    (exponential ((log2 * part) >>> width) / 2 ^ places * 2 ^ whole : ℝ) ≤
      (2 ^ 50 - 1) * 2 ^ (974 : ℤ) := by
  have nonneg : (0 : ℝ) ≤ part / 2 ^ width := by positivity
  have limit : ((2 : ℝ) ^ 53 - 1) * 2 ^ (-43 : ℤ) = 1023 + (2 ^ 43 - 1) / 2 ^ 43 := by norm_num
  rw [cut.value_eq, limit] at last
  have most : whole < 1024 := by
    have short : ((2 : ℝ) ^ 43 - 1) / 2 ^ 43 < 1 := by norm_num
    exact_mod_cast (by linarith : (whole : ℝ) < 1024)
  rcases (by omega : whole ≤ 1022 ∨ whole = 1023) with below | rfl
  · calc (exponential ((log2 * part) >>> width) / 2 ^ places * 2 ^ whole : ℝ)
        ≤ 2 * 2 ^ (1022 : ℤ) := mul_le_mul (factor_le_two cut.part_lt.le)
          (zpow_le_zpow_right₀ one_le_two below) (two_zpow_pos _).le two_pos.le
      _ = 2 ^ (49 : ℤ) * 2 ^ (974 : ℤ) := by
          rw [← zpow_add₀ two_ne_zero, ← zpow_one_add₀ two_ne_zero]
          norm_num
      _ ≤ (2 ^ 50 - 1) * 2 ^ (974 : ℤ) :=
          mul_le_mul_of_nonneg_right (by norm_num) (two_zpow_pos _).le
  · have short : (part : ℝ) / 2 ^ width ≤ (2 ^ 43 - 1) / 2 ^ 43 := by
      push_cast at last
      linarith
    rw [div_le_div_iff₀ (by positivity) (by positivity)] at short
    have parts : part * 2 ^ 43 ≤ (2 ^ 43 - 1) * 2 ^ width := by
      have whole : ((2 ^ 43 - 1 : ℕ) : ℝ) = 2 ^ 43 - 1 := by norm_num
      rw [← whole] at short
      exact_mod_cast short
    have factor : (exponential ((log2 * part) >>> width) : ℝ) ≤
        exponential ((log2 * (2 ^ 43 - 1)) >>> 43) := by
      exact_mod_cast exponential_mono (shift_mono parts)
    have enough : (exponential ((log2 * (2 ^ 43 - 1)) >>> 43) * 2 ^ (1023 : ℤ) : ℝ) ≤
        (2 ^ 50 - 1 : ℕ) * 2 ^ (974 : ℤ) * 2 ^ places := by
      exact_mod_cast exponential_last_le
    rw [Nat.cast_sub Nat.one_le_two_pow, Nat.cast_pow, Nat.cast_ofNat, Nat.cast_one] at enough
    rw [div_mul_eq_mul_div, div_le_iff₀ (by positivity)]
    exact (mul_le_mul_of_nonneg_right factor (two_zpow_pos _).le).trans enough

section Powers

variable {x y p q : Float} (finite : x.isFinite = true) (nonneg : 0 ≤ value x)

include finite nonneg

theorem powerOfTwo?_eq_some (below : value x < 1024) (power : powerOfTwo? x = some p) :
    ∃ whole part width, Cut x whole part width ∧ p.isFinite = true ∧ value p =
      nearest (exponential ((log2 * part) >>> width) / 2 ^ places * 2 ^ whole) := by
  obtain ⟨whole, part, width, cut⟩ := exists_cut finite (by linarith) below
  have rounds := roundsTo_powerOf two_pos log2 whole part width
  rw [Nat.cast_ofNat] at rounds
  have result : powerOfTwo? x = _ := cut.power?_eq 2 log2
  rw [power] at result
  split at result
  next fits =>
    cases result
    exact ⟨whole, part, width, cut, fits, rounds.value_eq fits⟩
  next => cases result

theorem powerOfTwo?_of_last (last : value x ≤ (2 ^ 53 - 1) * 2 ^ (-43 : ℤ)) :
    ∃ p, powerOfTwo? x = some p ∧ p.isFinite = true ∧ 1 ≤ value p := by
  have below : value x < 1024 := last.trans_lt (by norm_num)
  obtain ⟨whole, part, width, cut⟩ := exists_cut finite (by linarith) below
  have rounds := roundsTo_powerOf two_pos log2 whole part width
  rw [Nat.cast_ofNat] at rounds
  have within := rounds.within ⟨representable_one, representable_great, cut.one_le_power nonneg,
    cut.power_le_great last⟩
  exact ⟨_, (cut.power?_eq 2 log2).trans (if_pos within.finite), within.finite, within.low_le⟩

theorem powerOfTwo?_mono (finite' : y.isFinite = true) (ordered : value x ≤ value y)
    (below : value y < 1024) (power : powerOfTwo? x = some p) (power' : powerOfTwo? y = some q) :
    value p ≤ value q := by
  obtain ⟨_, _, _, cut, -, worth⟩ :=
    powerOfTwo?_eq_some finite nonneg (ordered.trans_lt below) power
  obtain ⟨_, _, _, cut', -, worth'⟩ :=
    powerOfTwo?_eq_some finite' (nonneg.trans ordered) below power'
  rw [worth, worth']
  exact nearest_mono (cut.power_le_power cut' ordered)

omit nonneg in
theorem powerOfTwo?_of_large (large : 1024 ≤ value x) : powerOfTwo? x = none := by
  obtain ⟨negative, m, e, known⟩ := exists_content finite
  have limit : content 1024.0 = .finite false (2 ^ 52) (-42) := by decide
  obtain ⟨limitFinite, limitValue⟩ := value_of_content limit
  have reached : (1024.0 : Float) ≤ x := by
    rw [le_iff limitFinite finite, limitValue]
    refine le_trans ?_ large
    norm_num
  unfold powerOfTwo? power?
  rw [known]
  exact if_pos reached

end Powers

/-- Numbers above 1024 are multiples of `2 ^ -43`, so the next one below 1025 is that far from it. -/
theorem le_of_lt_1025 {r : ℝ} (grid : OnGrid r) (below : r < 1025) :
    r ≤ 1025 - 2 ^ (-43 : ℤ) := by
  by_cases small : r ≤ 1024
  · refine small.trans ?_
    norm_num
  obtain ⟨k, e, few, least, rfl⟩ := grid
  rw [not_le] at small
  have unit : -43 < e := by
    have most : (k : ℝ) ≤ 2 ^ (53 : ℤ) := by exact_mod_cast (le_abs_self k).trans few
    have power : (2 : ℝ) ^ (10 : ℤ) < 2 ^ (53 + e) := by
      rw [zpow_add₀ two_ne_zero]
      refine lt_of_lt_of_le ?_ (mul_le_mul_of_nonneg_right most (two_zpow_pos e).le)
      norm_num
      exact small
    have exponents := (zpow_lt_zpow_iff_right₀ one_lt_two).mp power
    omega
  obtain ⟨places, rfl⟩ : ∃ places : ℕ, e = places + -43 := ⟨(e + 43).toNat, by omega⟩
  have whole : (k : ℝ) * 2 ^ (places + -43 : ℤ) = (k * 2 ^ places : ℤ) * 2 ^ (-43 : ℤ) := by
    rw [zpow_add₀ two_ne_zero, zpow_natCast]
    push_cast
    ring
  rw [whole] at below ⊢
  have units : k * 2 ^ places < 1025 * 2 ^ 43 := by
    have scaled : ((k * 2 ^ places : ℤ) : ℝ) < 1025 * 2 ^ 43 := by
      rw [zpow_neg, ← div_eq_mul_inv, div_lt_iff₀ (two_zpow_pos _)] at below
      exact_mod_cast below
    exact_mod_cast scaled
  have cast : ((k * 2 ^ places : ℤ) : ℝ) ≤ 1025 * 2 ^ 43 - 1 := by
    exact_mod_cast Int.le_sub_one_of_lt units
  refine (mul_le_mul_of_nonneg_right cast (two_zpow_pos _).le).trans ?_
  norm_num

end Binary64

namespace Loss

open Binary64

theorem reciprocal_of_one_le {p : Float} (number : p.isFinite = true) (least : 1 ≤ value p) :
    (1 / p).isFinite = true ∧ 0 < value (1 / p) ∧ value (1 / p) ≤ 1 := by
  have positive : 0 < value p := one_pos.trans_le least
  have rounds := roundsTo_div value_one.1 number positive.ne'
  rw [value_one.2] at rounds
  have within := rounds.within ⟨representable_zero, representable_one, by positivity,
    div_le_one_of_le₀ least positive.le⟩
  refine ⟨within.finite, ?_, within.le_high⟩
  rw [rounds.value_eq within.finite]
  -- even the largest number has a reciprocal above half of the least one
  have small : value p < 2 ^ (1024 : ℤ) := (le_abs_self _).trans_lt (representable_value number).small
  apply nearest_pos
  calc (2 : ℝ) ^ (-1075 : ℤ) < 2 ^ (-1024 : ℤ) := zpow_lt_zpow_right₀ one_lt_two (by norm_num)
    _ = 1 / 2 ^ (1024 : ℤ) := by rw [zpow_neg, one_div]
    _ ≤ 1 / value p := one_div_le_one_div_of_le positive small.le

theorem value_reciprocal_two_pow {p : Float} {k : ℕ} (number : p.isFinite = true)
    (power : value p = 2 ^ k) (few : k ≤ 1074) : value (1 / p) = 1 / 2 ^ k := by
  have rounds := roundsTo_div value_one.1 number (power ▸ by positivity)
  have same : (1 : ℝ) / 2 ^ k = 2 ^ (-k : ℤ) := by
    rw [zpow_neg, zpow_natCast, one_div]
  rw [value_one.2, power, same] at rounds
  rw [same]
  exact (rounds.eq_of_representable (representable_two_zpow (by omega) (by omega))).2

section Uniqueness

variable {n m w w' : Float} (finite : n.isFinite = true)

include finite

theorem within_others (some : 1 ≤ value n) (below : value n < 1025) :
    Within 0 ((2 ^ 53 - 1) * 2 ^ (-43 : ℤ)) (n - 1) := by
  have most := le_of_lt_1025 (representable_value finite).onGrid below
  have limit : ((2 : ℝ) ^ 53 - 1) * 2 ^ (-43 : ℤ) = 1025 - 2 ^ (-43 : ℤ) - 1 := by norm_num
  refine (roundsTo_sub finite value_one.1).within ⟨representable_zero, representable_last, ?_, ?_⟩ <;>
    rw [value_one.2]
  · linarith
  · linarith

theorem uniqueness_cases (below : value n < 1025) :
    (value n ≤ 1 ∧ uniqueness n = .ok 1) ∨
      1 < value n ∧ ∃ p, powerOfTwo? (n - 1) = some p ∧ p.isFinite = true ∧ 1 ≤ value p ∧
        uniqueness n = .ok (1 / p) := by
  unfold uniqueness
  by_cases alone : n ≤ 1
  · rw [le_iff finite value_one.1, value_one.2] at alone
    exact .inl ⟨alone, if_pos ((le_iff finite value_one.1).mpr (value_one.2 ▸ alone))⟩
  · rw [if_neg alone]
    rw [le_iff finite value_one.1, value_one.2, not_le] at alone
    have others := within_others finite alone.le below
    obtain ⟨p, power, number, least⟩ := powerOfTwo?_of_last others.finite others.low_le others.le_high
    refine .inr ⟨alone, p, power, number, least, ?_⟩
    rw [show Scalar.powerOfTwo? (n - 1) = some p from power]

theorem exists_uniqueness_of_lt (below : value n < 1025) :
    ∃ w, uniqueness n = .ok w ∧ w.isFinite = true ∧ 0 < value w ∧ value w ≤ 1 := by
  rcases uniqueness_cases finite below with ⟨-, all⟩ | ⟨-, p, -, number, least, halved⟩
  · refine ⟨1, all, value_one.1, ?_, ?_⟩ <;> rw [value_one.2]
    exact one_pos
  · obtain ⟨share, positive, most⟩ := reciprocal_of_one_le number least
    exact ⟨1 / p, halved, share, positive, most⟩

theorem uniqueness_antitone (finite' : m.isFinite = true) (ordered : value n ≤ value m)
    (below : value m < 1025) (left : uniqueness n = .ok w) (left' : uniqueness m = .ok w') :
    value w' ≤ value w := by
  rcases uniqueness_cases finite (ordered.trans_lt below) with
    ⟨-, all⟩ | ⟨more, p, power, number, least, halved⟩
  · obtain ⟨share, known, -, -, most⟩ := exists_uniqueness_of_lt finite' below
    cases left.symm.trans all
    cases left'.symm.trans known
    exact most.trans_eq value_one.2.symm
  · rcases uniqueness_cases finite' below with
      ⟨few, -⟩ | ⟨more', q, power', number', least', halved'⟩
    · exact absurd (more.trans_le ordered) (not_lt.mpr few)
    · cases left.symm.trans halved
      cases left'.symm.trans halved'
      have others := within_others finite more.le (ordered.trans_lt below)
      have others' := within_others finite' more'.le below
      have less : value (n - 1) ≤ value (m - 1) := by
        rw [(roundsTo_sub finite value_one.1).value_eq others.finite,
          (roundsTo_sub finite' value_one.1).value_eq others'.finite]
        exact nearest_mono (by linarith)
      have powers := powerOfTwo?_mono others.finite others.low_le others'.finite less
        (others'.le_high.trans_lt (by norm_num)) power power'
      have positive : 0 < value p := one_pos.trans_le least
      have positive' : 0 < value q := one_pos.trans_le least'
      have rounds := roundsTo_div value_one.1 number positive.ne'
      have rounds' := roundsTo_div value_one.1 number' positive'.ne'
      rw [rounds.value_eq (reciprocal_of_one_le number least).1,
        rounds'.value_eq (reciprocal_of_one_le number' least').1, value_one.2]
      exact nearest_mono (one_div_le_one_div_of_le positive powers)

theorem uniqueness_of_large (large : 1025 ≤ value n) : uniqueness n = .error .overflow := by
  have others : Within 1024 (value n) (n - 1) := by
    refine (roundsTo_sub finite value_one.1).within
      ⟨by exact_mod_cast representable_natCast (n := 1024) (by norm_num), representable_value finite,
        ?_, ?_⟩ <;> rw [value_one.2] <;> linarith
  have several : ¬n ≤ 1 := by
    rw [le_iff finite value_one.1, value_one.2, not_le]
    linarith
  unfold uniqueness
  rw [if_neg several, show Scalar.powerOfTwo? (n - 1) = none from
    powerOfTwo?_of_large others.finite others.low_le]

end Uniqueness

theorem uniqueness_of_infinite {n : Float} (infinite : n.toModel.unpack = .infinity .positive) :
    ∃ w, uniqueness n = .ok w ∧ w.isFinite = true ∧ value w = 0 := by
  have canonical := canonical_of_isFinite value_one.1
  have unchanged : (n - 1).toModel.unpack = .infinity .positive := by
    have packed : n - 1 = .ofModel (.pack (.infinity .positive)) := by
      have difference : n - 1 = .ofModel
        (.pack (.sub .binary64 n.toModel.unpack (1 : Float).toModel.unpack)) := rfl
      rw [difference, infinite]
      generalize (1 : Float).toModel.unpack = u at canonical
      cases u with
      | infinity => exact canonical.elim
      | notANumber => exact canonical.elim
      | zero => rfl
      | finite => rfl
    rw [packed]
    rfl
  have power : Scalar.powerOfTwo? (n - 1) = some (n - 1) := by
    change power? 2 log2 (n - 1) = _
    unfold power? content
    rw [unchanged]
    rfl
  have nothing := within_div_infinite value_one.1 ⟨.positive, unchanged⟩
  refine ⟨1 / (n - 1), ?_, nothing.finite, le_antisymm nothing.le_high nothing.low_le⟩
  unfold uniqueness
  rw [if_neg (le_of_infinite value_one.1 infinite).2, power]

/-- The share of a forecaster is above zero and shrinks with their number, up to a number of 1025. From
there on there is none, unless the number is infinite. -/
structure SharesBelowLimit : Prop where
  share : ∀ n : Float, 0 ≤ n → n < 1025 →
    ∃ w, uniqueness n = .ok w ∧ w.isFinite = true ∧ 0 < w ∧ w ≤ 1
  antitone : ∀ n m w w' : Float, 0 ≤ n → n ≤ m → m < 1025 → uniqueness n = .ok w →
    uniqueness m = .ok w' → w' ≤ w
  overflow : ∀ n : Float, n.isFinite = true → 1025 ≤ n → uniqueness n = .error .overflow
  infinite : ∀ n : Float, 0 ≤ n → n.isFinite = false →
    ∃ w, uniqueness n = .ok w ∧ 0 ≤ w ∧ w ≤ 0

theorem value_limit : (1025 : Float).isFinite = true ∧ value 1025 = 1025 := by
  obtain ⟨finite, worth⟩ := value_ofNat (n := 1025) (by norm_num)
  exact ⟨finite, worth.trans (by norm_num)⟩

theorem isFinite_of_le_of_lt {n m : Float} (nonneg : 0 ≤ n) (ordered : n ≤ m) (below : m < 1025) :
    n.isFinite = true ∧ m.isFinite = true ∧ value n ≤ value m ∧ value m < 1025 := by
  have weakly := le_of_less below
  rcases nonneg_cases nonneg with ⟨number, -⟩ | infinite <;>
    rcases finite_or_negative_of_le value_limit.1 weakly with number' | negative
  · rw [lt_iff number' value_limit.1, value_limit.2] at below
    exact ⟨number, number', (le_iff number number').mp ordered, below⟩
  · exact absurd ordered (lt_of_negative number negative).2
  · exact absurd ordered (le_of_infinite number' infinite).2
  · rw [le_iff_compare, infinite, negative] at ordered
    cases ordered

theorem sharesBelowLimit : SharesBelowLimit where
  share n nonneg under := by
    obtain ⟨within, -, below⟩ := within_of_less value_limit.1 nonneg under
      ((le_iff value_limit.1 value_limit.1).mpr le_rfl)
    rw [value_limit.2] at below
    obtain ⟨w, left, finite, positive, most⟩ := exists_uniqueness_of_lt within.finite below
    refine ⟨w, left, finite, (lt_iff value_zero.1 finite).mpr ?_, (le_iff finite value_one.1).mpr ?_⟩
    · rwa [value_zero.2]
    · rwa [value_one.2]
  antitone n m w w' nonneg ordered under left left' := by
    obtain ⟨number, number', values, below⟩ := isFinite_of_le_of_lt nonneg ordered under
    obtain ⟨_, known, finite, -, -⟩ := exists_uniqueness_of_lt number (values.trans_lt below)
    obtain ⟨_, known', finite', -, -⟩ := exists_uniqueness_of_lt number' below
    cases left.symm.trans known
    cases left'.symm.trans known'
    exact (le_iff finite' finite).mpr (uniqueness_antitone number number' values below known known')
  overflow n finite large := by
    rw [le_iff value_limit.1 finite, value_limit.2] at large
    exact uniqueness_of_large finite large
  infinite n nonneg infinite := by
    rcases nonneg_cases nonneg with ⟨finite, -⟩ | positive
    · rw [infinite] at finite
      cases finite
    · obtain ⟨w, left, finite, nothing⟩ := uniqueness_of_infinite positive
      refine ⟨w, left, (le_iff value_zero.1 finite).mpr ?_, (le_iff finite value_zero.1).mpr ?_⟩ <;>
        rw [value_zero.2, nothing]

theorem no_share_of_1025 : uniqueness (1025 : Float) = .error .overflow ∧
    ¬∃ w : Float, uniqueness (1025 : Float) = .ok w ∧ 0 < w ∧ w ≤ 1 := by
  have none := uniqueness_of_large value_limit.1 value_limit.2.ge
  refine ⟨none, ?_⟩
  rintro ⟨_, left, -⟩
  cases none.symm.trans left

theorem exists_uniqueness_natCast {n : ℕ} (few : n ≤ 1024) :
    ∃ factor : Float, uniqueness (n : Float) = .ok factor ∧ (0 ≤ factor ∧ factor ≤ 1) ∧
      value factor = 1 / 2 ^ (n - 1) := by
  obtain ⟨number, worth⟩ : (n : Float).isFinite = true ∧ value (n : Float) = n :=
    value_ofNat (by omega)
  have below : value (n : Float) < 1025 := by
    rw [worth]
    exact_mod_cast Nat.lt_add_one_of_le few
  obtain ⟨factor, left, finite, positive, most⟩ := exists_uniqueness_of_lt number below
  rw [← value_zero.2, ← lt_iff value_zero.1 finite] at positive
  rw [← value_one.2, ← le_iff finite value_one.1] at most
  refine ⟨factor, left, ⟨le_of_less positive, most⟩, ?_⟩
  rcases uniqueness_cases number below with ⟨alone, all⟩ | ⟨several, p, power, -, -, halved⟩
  · cases left.symm.trans all
    rw [worth] at alone
    have none : n - 1 = 0 := Nat.sub_eq_zero_of_le (by exact_mod_cast alone)
    rw [none, pow_zero, div_one, value_one.2]
  · cases left.symm.trans halved
    rw [worth] at several
    have some : 1 ≤ n := by exact_mod_cast several.le
    have rounds := roundsTo_sub number value_one.1
    rw [worth, value_one.2, ← Nat.cast_one, ← Nat.cast_sub some] at rounds
    obtain ⟨others, exactly⟩ := rounds.eq_of_representable (representable_natCast (by omega))
    obtain ⟨_, known, number', powerIs⟩ := powerOfTwo?_natCast others exactly (by omega)
    cases power.symm.trans known
    exact value_reciprocal_two_pow number' powerIs (by omega)

theorem uniqueness_natCast_of_large {n : ℕ} (finite : (n : Float).isFinite = true)
    (many : 1025 ≤ n) : uniqueness (n : Float) = .error .overflow := by
  refine uniqueness_of_large finite ?_
  have large : ((1025 : ℕ) : ℝ) ≤ n := by exact_mod_cast many
  rcases lt_or_ge n (2 ^ 53) with exact | rounded
  · change 1025 ≤ value (Float.ofNat n)
    rw [(value_ofNat exact).2]
    exact_mod_cast large
  · have rounds : RoundsTo (n : Float) n := roundsTo_ofNat_of_large rounded
    have grid : OnGrid ((1025 : ℕ) : ℝ) := (representable_natCast (by norm_num)).onGrid
    rw [rounds.value_eq finite]
    exact_mod_cast le_nearest grid large

end Loss

end RoundScoring
