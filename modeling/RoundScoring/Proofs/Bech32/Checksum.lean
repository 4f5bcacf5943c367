import Mathlib.Data.List.Induction
import Mathlib.Data.Nat.Bitwise
import RoundScoring.Bech32.Checksum

/-!
The checksum makes any text whole. The remainder is linear in exclusive or (`foldl_step_xor`), and six
symbols that enter an empty remainder are just written into it (`foldl_step_symbols`); so what the
checksum adds to the remainder of a text followed by six zeros is the one value that brings it to one.
-/

namespace RoundScoring.Bech32

theorem ite_xor (p q : Bool) (k : Nat) :
    (if (p ^^ q) then k else 0) = (if p then k else 0) ^^^ (if q then k else 0) := by
  cases p <;> cases q <;> simp

theorem feedback_xor (a b : Nat) : feedback (a ^^^ b) = feedback a ^^^ feedback b := by
  unfold feedback
  simp only [Nat.testBit_xor, ite_xor]
  ac_rfl

theorem step_xor (a b u v : Nat) : step (a ^^^ b) (u ^^^ v) = step a u ^^^ step b v := by
  unfold step
  rw [Nat.and_xor_distrib_right, Nat.shiftLeft_xor_distrib, Nat.shiftRight_xor_distrib,
    feedback_xor]
  ac_rfl

theorem foldl_step_xor {us vs : List Nat} (same : us.length = vs.length) (a b : Nat) :
    (List.zipWith (· ^^^ ·) us vs).foldl step (a ^^^ b) = us.foldl step a ^^^ vs.foldl step b := by
  induction us generalizing vs a b with
  | nil =>
    cases vs with
    | nil => rfl
    | cons v vs => cases same
  | cons u us ih =>
    cases vs with
    | nil => cases same
    | cons v vs =>
      rw [List.zipWith_cons_cons, List.foldl_cons, step_xor, List.foldl_cons, List.foldl_cons]
      exact ih (Nat.succ.inj same) _ _

theorem feedback_lt (top : Nat) : feedback top < 2 ^ 30 := by
  have bounded : ∀ (p : Bool) (k : Nat), k < 2 ^ 30 → (if p then k else 0) < 2 ^ 30 := by
    intro p k small
    split <;> omega
  unfold feedback
  refine Nat.xor_lt_two_pow (Nat.xor_lt_two_pow (Nat.xor_lt_two_pow (Nat.xor_lt_two_pow ?_ ?_) ?_)
    ?_) ?_ <;> exact bounded _ _ (by decide)

theorem step_zero_lt (state : Nat) : step state 0 < 2 ^ 30 := by
  unfold step
  refine Nat.xor_lt_two_pow (Nat.xor_lt_two_pow ?_ (by decide)) (feedback_lt _)
  have low : state &&& 0x1ffffff ≤ 0x1ffffff := Nat.and_le_right
  rw [Nat.shiftLeft_eq]
  omega

theorem feedback_zero : feedback 0 = 0 := rfl

theorem step_of_lt {state value : Nat} (room : state < 2 ^ 25) (small : value < 2 ^ 5) :
    step state value = 2 ^ 5 * state + value := by
  have kept : state &&& 0x1ffffff = state := by
    rw [show 0x1ffffff = 2 ^ 25 - 1 from rfl, Nat.and_two_pow_sub_one_eq_mod, Nat.mod_eq_of_lt room]
  have top : state >>> 25 = 0 := by
    rw [Nat.shiftRight_eq_div_pow, Nat.div_eq_of_lt room]
  unfold step
  rw [kept, top, feedback_zero, Nat.xor_zero]
  apply Nat.eq_of_testBit_eq
  intro i
  rw [Nat.testBit_xor, Nat.testBit_shiftLeft, Nat.testBit_two_pow_mul_add _ small]
  by_cases low : i < 5
  · simp [low, Nat.not_le.mpr low]
  · have high : value.testBit i = false :=
      Nat.testBit_lt_two_pow (small.trans_le (Nat.pow_le_pow_right (by decide) (not_lt.mp low)))
    simp [low, high, not_lt.mp low]

theorem step_shiftRight {target shift : Nat} (room : target >>> (shift + 5) < 2 ^ 25) :
    step (target >>> (shift + 5)) (Symbol.ofNat (target >>> shift)).val = target >>> shift := by
  rw [step_of_lt room (Symbol.ofNat _).isLt, Nat.shiftRight_add]
  change 2 ^ 5 * ((target >>> shift) >>> 5) + target >>> shift % 32 = _
  rw [Nat.shiftRight_eq_div_pow _ 5]
  omega

theorem foldl_step_symbols {target : Nat} (small : target < 2 ^ 30) :
    (([25, 20, 15, 10, 5, 0].map fun shift => Symbol.ofNat (target >>> shift)).map
      Fin.val).foldl step 0 = target := by
  have empty : target >>> (25 + 5) = 0 := by
    rw [Nat.shiftRight_eq_div_pow, Nat.div_eq_of_lt small]
  have room : ∀ shift, target >>> (shift + 5) < 2 ^ 25 := by
    intro shift
    rw [Nat.shiftRight_eq_div_pow, Nat.pow_add]
    have positive : 0 < 2 ^ shift := Nat.two_pow_pos shift
    rw [← Nat.div_div_eq_div_mul, Nat.div_lt_iff_lt_mul (by decide)]
    exact (Nat.div_le_self _ _).trans_lt small
  have enter := fun shift => step_shiftRight (room shift)
  have first := enter 25
  rw [empty] at first
  simp only [List.map_cons, List.map_nil, List.foldl_cons, List.foldl_nil]
  rw [first, enter 20, enter 15, enter 10, enter 5]
  exact enter 0

theorem remainder_append_six (values : List Nat) {tail : List Symbol} (six : tail.length = 6) :
    remainder (values ++ tail.map Fin.val) =
      remainder (values ++ List.replicate 6 0) ^^^ (tail.map Fin.val).foldl step 0 := by
  have sizes : (List.replicate 6 0).length = (tail.map Fin.val).length := by
    rw [List.length_replicate, List.length_map, six]
  have unchanged : List.zipWith (· ^^^ ·) (List.replicate 6 0) (tail.map Fin.val) =
      tail.map Fin.val := by
    rw [← six, ← List.length_map Fin.val]
    apply List.ext_getElem <;> simp
  have beside := foldl_step_xor sizes (remainder values) 0
  rw [unchanged, Nat.xor_zero] at beside
  rw [remainder_append, remainder_append, beside]

theorem isIntact_checksum (hrp : List Char) (symbols : List Symbol) :
    isIntact hrp (symbols ++ checksum hrp symbols) := by
  have small : remainder (expand hrp ++ symbols.map Fin.val ++ List.replicate 6 0) ^^^ 1 < 2 ^ 30 := by
    refine Nat.xor_lt_two_pow ?_ (by decide)
    rw [remainder_append]
    exact step_zero_lt _
  have written : ((checksum hrp symbols).map Fin.val).foldl step 0 =
      remainder (expand hrp ++ symbols.map Fin.val ++ List.replicate 6 0) ^^^ 1 :=
    foldl_step_symbols small
  unfold isIntact
  rw [List.map_append, ← List.append_assoc, remainder_append_six _ (length_checksum hrp symbols),
    written, ← Nat.xor_assoc, Nat.xor_self, Nat.zero_xor]
  rfl

theorem foldl_step_concat {symbols : List Symbol} (few : symbols.length < 6) (last : Symbol) :
    ((symbols ++ [last]).map Fin.val).foldl step 0 =
      2 ^ 5 * (symbols.map Fin.val).foldl step 0 + last.val ∧
    (symbols.map Fin.val).foldl step 0 < 2 ^ (5 * symbols.length) := by
  induction symbols using List.reverseRecOn generalizing last with
  | nil => exact ⟨step_of_lt (by decide) last.isLt, by decide⟩
  | append_singleton symbols before ih =>
    rw [List.length_append, List.length_singleton] at few
    obtain ⟨written, small⟩ := ih (by omega) before
    have grown : ((symbols ++ [before]).map Fin.val).foldl step 0 <
        2 ^ (5 * (symbols ++ [before]).length) := by
      have digit := before.isLt
      rw [written, List.length_append, List.length_singleton, Nat.mul_add, Nat.pow_add]
      omega
    refine ⟨?_, grown⟩
    have room : ((symbols ++ [before]).map Fin.val).foldl step 0 < 2 ^ 25 := by
      refine grown.trans_le (Nat.pow_le_pow_right (by decide) ?_)
      rw [List.length_append, List.length_singleton]
      omega
    rw [List.map_append, List.foldl_append]
    exact step_of_lt room last.isLt

theorem eq_of_foldl_step_eq {left right : List Symbol} (same : left.length = right.length)
    (few : left.length ≤ 6)
    (written : (left.map Fin.val).foldl step 0 = (right.map Fin.val).foldl step 0) :
    left = right := by
  induction left using List.reverseRecOn generalizing right with
  | nil => exact (List.length_eq_zero_iff.mp same.symm).symm
  | append_singleton left last ih =>
    rcases List.eq_nil_or_concat right with rfl | ⟨right, last', rfl⟩
    · simp at same
    rw [List.length_append, List.length_singleton] at same few
    rw [List.concat_eq_append, List.length_append, List.length_singleton] at same
    rw [List.concat_eq_append, (foldl_step_concat (by omega) last).1,
      (foldl_step_concat (by omega) last').1] at written
    have digit := last.isLt
    have digit' := last'.isLt
    have heads : (left.map Fin.val).foldl step 0 = (right.map Fin.val).foldl step 0 := by omega
    have tails : last = last' := Fin.ext (by omega)
    rw [List.concat_eq_append, ih (by omega) (by omega) heads, tails]

theorem eq_checksum_of_isIntact {hrp : List Char} {symbols tail : List Symbol}
    (six : tail.length = 6) (intact : isIntact hrp (symbols ++ tail)) :
    tail = checksum hrp symbols := by
  have whole := isIntact_checksum hrp symbols
  unfold isIntact at intact whole
  rw [List.map_append, ← List.append_assoc, decide_eq_true_iff] at intact whole
  rw [remainder_append_six _ six] at intact
  rw [remainder_append_six _ (length_checksum hrp symbols), ← intact] at whole
  apply eq_of_foldl_step_eq (six.trans (length_checksum hrp symbols).symm) six.le
  exact (Nat.xor_right_injective whole).symm

end RoundScoring.Bech32
