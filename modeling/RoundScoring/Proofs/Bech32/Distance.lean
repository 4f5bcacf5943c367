import Mathlib.Data.List.Iterate
import RoundScoring.Proofs.Bech32.Checksum

/-!
How far apart texts with an intact checksum are. What a wrong symbol leaves in the remainder is moved on
by every symbol behind it, and a second wrong symbol can only take away a single symbol. The symbols
are a field over which moving on is linear (`moved_doubled`), so it is enough to follow the symbol one:
for 1022 moves it is never a single symbol again (`one_moved_beyond`). Hence, among up to 1023 symbols,
one or two that are wrong never leave the remainder as it was (`foldl_step_ne_of_altered`).
-/

namespace RoundScoring.Bech32

/-- A list with some of its places altered, so many of them, each into something other than before. -/
inductive Altered {α : Type} (other : α → α → Prop) : Nat → List α → List α → Prop
  | nil : Altered other 0 [] []
  | kept {n : Nat} {as bs : List α} (a : α) (rest : Altered other n as bs) :
      Altered other n (a :: as) (a :: bs)
  | replaced {n : Nat} {as bs : List α} {a b : α} (differs : other a b)
      (rest : Altered other n as bs) : Altered other (n + 1) (a :: as) (b :: bs)

theorem Altered.eq_of_zero {α : Type} {other : α → α → Prop} {as bs : List α}
    (altered : Altered other 0 as bs) : as = bs := by
  generalize none : 0 = n at altered
  induction altered with
  | nil => rfl
  | kept a _ ih => rw [ih none]
  | replaced => cases none

def moved (state : Nat) : Nat := step state 0

/-- Every symbol in a remainder times the generator of their field: its bits move up, and the highest
of them comes back as nine. -/
def doubled (state : Nat) : Nat :=
  let tops := (state >>> 4) &&& 0x2108421
  ((state &&& 0x1ef7bdef) <<< 1) ^^^ (tops <<< 3 ^^^ tops)

theorem moved_xor (a b : Nat) : moved (a ^^^ b) = moved a ^^^ moved b := step_xor a b 0 0

theorem moved_lt (state : Nat) : moved state < 2 ^ 30 := step_zero_lt state

theorem step_eq_moved_xor (state value : Nat) : step state value = moved state ^^^ value := by
  have split := step_xor state 0 0 value
  rw [Nat.xor_zero, Nat.zero_xor] at split
  rw [split]
  congr 1
  simp [step, feedback_zero]

theorem step_lt (state : Nat) (s : Symbol) : step state s.val < 2 ^ 30 := by
  rw [step_eq_moved_xor]
  exact Nat.xor_lt_two_pow (moved_lt state) (s.isLt.trans (by decide))

theorem doubled_xor (a b : Nat) : doubled (a ^^^ b) = doubled a ^^^ doubled b := by
  simp only [doubled, Nat.and_xor_distrib_right, Nat.shiftLeft_xor_distrib,
    Nat.shiftRight_xor_distrib]
  ac_rfl

theorem eq_of_bits {f g : Nat → Nat} (linear : ∀ a b, f (a ^^^ b) = f a ^^^ f b)
    (linear' : ∀ a b, g (a ^^^ b) = g a ^^^ g b) {width : Nat}
    (bits : ∀ i < width, f (2 ^ i) = g (2 ^ i)) {a : Nat} (small : a < 2 ^ width) : f a = g a := by
  induction width generalizing a with
  | zero =>
    have none : a = a ^^^ a := by
      rw [Nat.xor_self]
      omega
    rw [none, linear, linear', Nat.xor_self, Nat.xor_self]
  | succ width ih =>
    have lower := fun {b : Nat} => ih (a := b) fun i below => bits i (Nat.lt_succ_of_lt below)
    by_cases top : a < 2 ^ width
    · exact lower top
    · have whole : a = 2 ^ width ^^^ (a ^^^ 2 ^ width) := by
        rw [Nat.xor_comm a, ← Nat.xor_assoc, Nat.xor_self, Nat.zero_xor]
      have rest : a ^^^ 2 ^ width < 2 ^ width := by
        refine Nat.lt_pow_two_of_testBit _ fun i above => ?_
        rw [Nat.testBit_xor, Nat.testBit_two_pow]
        rcases above.eq_or_lt with rfl | above
        · have set := Nat.testBit_of_two_pow_le_and_two_pow_add_one_gt (not_lt.mp top) small
          simp [set]
        · have unset := Nat.testBit_lt_two_pow (small.trans_le (Nat.pow_le_pow_right Nat.two_pos above))
          simp [unset, above.ne]
      rw [whole, linear, linear', bits width (Nat.lt_succ_self width), lower rest]

/-- The symbols are a field, and the remainder of a polynomial is linear over it. -/
theorem moved_doubled {a : Nat} (small : a < 2 ^ 30) : moved (doubled a) = doubled (moved a) := by
  refine eq_of_bits (f := fun a => moved (doubled a)) (g := fun a => doubled (moved a))
    (fun a b => ?_) (fun a b => ?_) ?_ small
  · rw [doubled_xor, moved_xor]
  · rw [moved_xor, doubled_xor]
  · decide

theorem doubled_lt (s : Symbol) : doubled s.val < 32 := by
  revert s
  decide

theorem exists_doubled_eq_one {s : Symbol} (nonzero : s ≠ 0) : ∃ k < 31, doubled^[k] s.val = 1 := by
  revert s
  decide

theorem one_moved_beyond {k : Nat} (far : 0 < k) (few : k ≤ 1022) : 32 ≤ moved^[k] 1 := by
  have each : ∀ state ∈ List.iterate moved (moved 1) 1022, 32 ≤ state := by
    decide +kernel
  obtain ⟨k, rfl⟩ := Nat.exists_eq_add_of_lt far
  apply each
  rw [List.mem_iterate]
  exact ⟨k, by omega, by rw [Nat.zero_add, Function.iterate_succ_apply]⟩

theorem doubled_iterate_lt (s : Symbol) (k : Nat) : doubled^[k] s.val < 32 := by
  induction k with
  | zero => exact s.isLt
  | succ k ih =>
    rw [Function.iterate_succ_apply']
    exact doubled_lt ⟨_, ih⟩

theorem moved_iterate_lt {a : Nat} (small : a < 2 ^ 30) (k : Nat) : moved^[k] a < 2 ^ 30 := by
  cases k with
  | zero => exact small
  | succ k =>
    rw [Function.iterate_succ_apply']
    exact moved_lt _

theorem moved_iterate_doubled {a : Nat} (small : a < 2 ^ 30) (k : Nat) :
    moved^[k] (doubled a) = doubled (moved^[k] a) := by
  induction k with
  | zero => rfl
  | succ k ih =>
    rw [Function.iterate_succ_apply', Function.iterate_succ_apply', ih,
      moved_doubled (moved_iterate_lt small k)]

theorem moved_iterate_doubled_iterate (s : Symbol) (k j : Nat) :
    moved^[k] (doubled^[j] s.val) = doubled^[j] (moved^[k] s.val) := by
  induction j with
  | zero => rfl
  | succ j ih =>
    have small := (doubled_iterate_lt s j).trans (by decide : 32 < 2 ^ 30)
    rw [Function.iterate_succ_apply', Function.iterate_succ_apply', moved_iterate_doubled small, ih]

theorem moved_beyond {s : Symbol} (nonzero : s ≠ 0) {k : Nat} (far : 0 < k) (few : k ≤ 1022) :
    32 ≤ moved^[k] s.val := by
  by_contra single
  obtain ⟨j, -, one⟩ := exists_doubled_eq_one nonzero
  have again := doubled_iterate_lt ⟨_, not_le.mp single⟩ j
  rw [← moved_iterate_doubled_iterate, one] at again
  exact absurd (one_moved_beyond far few) (not_le.mpr again)

theorem eq_zero_of_moved_eq_zero {a : Nat} (small : a < 2 ^ 30) (gone : moved a = 0) : a = 0 := by
  have feedback_low : ∀ top < 32, feedback top % 2 ^ 5 = 0 → top = 0 := by
    decide
  have top : a >>> 25 < 32 := by
    rw [Nat.shiftRight_eq_div_pow]
    omega
  have low : moved a % 2 ^ 5 = feedback (a >>> 25) % 2 ^ 5 := by
    rw [moved, step, Nat.xor_zero, Nat.xor_mod_two_pow, Nat.shiftLeft_eq, Nat.mul_mod_left,
      Nat.zero_xor]
  have none : a >>> 25 = 0 := feedback_low _ top (low.symm.trans (congrArg (· % 2 ^ 5) gone))
  have room : a < 2 ^ 25 := by
    rw [Nat.shiftRight_eq_div_pow] at none
    omega
  have written : moved a = 2 ^ 5 * a + 0 := step_of_lt room (by decide)
  omega

theorem foldl_step_ne_of_ne {symbols : List Symbol} {a b : Nat} (small : a < 2 ^ 30)
    (small' : b < 2 ^ 30) (different : a ≠ b) :
    (symbols.map Fin.val).foldl step a ≠ (symbols.map Fin.val).foldl step b := by
  induction symbols generalizing a b with
  | nil => exact different
  | cons s symbols ih =>
    refine ih (step_lt a s) (step_lt b s) fun same => different ?_
    have gone : moved (a ^^^ b) = 0 := by
      have both := step_xor a b s.val s.val
      rwa [same, Nat.xor_self, Nat.xor_self] at both
    exact Nat.xor_eq_zero_iff.mp (eq_zero_of_moved_eq_zero (Nat.xor_lt_two_pow small small') gone)

theorem foldl_step_ne_of_moved {n k : Nat} {left right : List Symbol} {s : Symbol} {a b : Nat}
    (altered : Altered (· ≠ ·) n left right) (once : n ≤ 1) (nonzero : s ≠ 0)
    (near : k + left.length ≤ 1022) (small : a < 2 ^ 30) (small' : b < 2 ^ 30)
    (apart : a ^^^ b = moved^[k] s.val) :
    (left.map Fin.val).foldl step a ≠ (right.map Fin.val).foldl step b := by
  induction altered generalizing k a b with
  | nil =>
    intro same
    rw [show a = b from same, Nat.xor_self] at apart
    rcases Nat.eq_zero_or_pos k with rfl | far
    · exact nonzero (Fin.ext apart.symm)
    · have beyond := moved_beyond nonzero far (by omega)
      omega
  | @kept _ left _ t _ ih =>
    rw [List.length_cons] at near
    refine ih once (k := k + 1) (by omega) (step_lt a t) (step_lt b t) ?_
    rw [Function.iterate_succ_apply', ← apart]
    have both := step_xor a b t.val t.val
    rwa [Nat.xor_self, eq_comm] at both
  | @replaced m left _ t u _ rest _ =>
    rw [List.length_cons] at near
    obtain rfl : m = 0 := by omega
    rw [rest.eq_of_zero]
    refine foldl_step_ne_of_ne (step_lt a t) (step_lt b u) fun same => ?_
    have both := step_xor a b t.val u.val
    rw [same, Nat.xor_self, step_eq_moved_xor, apart, ← Function.iterate_succ_apply' moved] at both
    have single : t.val ^^^ u.val < 2 ^ 5 := Nat.xor_lt_two_pow t.isLt u.isLt
    have beyond : 32 ≤ moved^[k + 1] s.val := moved_beyond nonzero (by omega) (by omega)
    rw [Nat.xor_eq_zero_iff.mp both] at beyond
    omega

theorem foldl_step_ne_of_altered {n : Nat} {left right : List Symbol}
    (altered : Altered (· ≠ ·) n left right) (least : 1 ≤ n) (most : n ≤ 2)
    (near : left.length ≤ 1023) (a : Nat) :
    (left.map Fin.val).foldl step a ≠ (right.map Fin.val).foldl step a := by
  -- Both remainders are the same up to the first wrong symbol.
  induction altered generalizing a with
  | nil => omega
  | @kept _ left _ t _ ih =>
    rw [List.length_cons] at near
    exact ih least most (by omega) (step a t)
  | @replaced _ left _ t u differs rest _ =>
    rw [List.length_cons] at near
    have single : t.val ^^^ u.val < 2 ^ 5 := Nat.xor_lt_two_pow t.isLt u.isLt
    have nonzero : (⟨t.val ^^^ u.val, single⟩ : Symbol) ≠ 0 := by
      intro same
      exact differs (Fin.ext (Nat.xor_eq_zero_iff.mp (Fin.val_eq_of_eq same)))
    have apart : step a t.val ^^^ step a u.val = moved^[0] (t.val ^^^ u.val) := by
      have both := step_xor a a t.val u.val
      rw [Nat.xor_self, step_of_lt (by decide) single] at both
      rw [← both]
      exact Nat.zero_add _
    rw [List.map_cons, List.map_cons, List.foldl_cons, List.foldl_cons]
    exact foldl_step_ne_of_moved rest (by omega) nonzero (by omega) (step_lt a t) (step_lt a u) apart

theorem not_isIntact_of_altered {hrp : List Char} {n : Nat} {left right : List Symbol}
    (intact : isIntact hrp left) (altered : Altered (· ≠ ·) n left right) (least : 1 ≤ n) (most : n ≤ 2)
    (near : left.length ≤ 1023) : ¬isIntact hrp right := by
  intro intact'
  unfold isIntact at intact intact'
  rw [decide_eq_true_iff, remainder_append] at intact intact'
  exact foldl_step_ne_of_altered altered least most near _ (intact.trans intact'.symm)

end RoundScoring.Bech32
