import RoundScoring.Proofs.Bech32.Distance
import RoundScoring.Proofs.Bech32.Printed

/-!
Texts of accounts that were mistyped. Behind the last `1` a text has at most 414 symbols, and so one or
two that stand in for others are noticed, whatever their case and whichever human readable part is
required (`Address.mistyped_text_is_refused`).
-/

namespace RoundScoring.Bech32

def IsSymbol (c : Char) : Prop := ∃ s, Symbol.ofChar? c.toLower = some s

def StandsIn (c d : Char) : Prop := IsSymbol d ∧ d.toLower ≠ c.toLower

instance (c : Char) : Decidable (IsSymbol c) :=
  decidable_of_iff ((Symbol.ofChar? c.toLower).isSome = true) Option.isSome_iff_exists

instance (c d : Char) : Decidable (StandsIn c d) :=
  inferInstanceAs (Decidable (IsSymbol d ∧ d.toLower ≠ c.toLower))

theorem eq_one_of_toLower {c : Char} (plain : isPlain c) (one : c.toLower = '1') : c = '1' := by
  refine of_isPlain (p := fun c => c.toLower = '1' → c = '1') ?_ plain one
  decide

theorem ne_one_of_isSymbol {c : Char} (symbol : IsSymbol c) : c ≠ '1' := by
  rintro rfl
  revert symbol
  decide

theorem cut_of_decode? {text before data hrp : List Char} {symbols : List Symbol}
    (decoded : decode? text = some (hrp, symbols)) (whole : text = before ++ '1' :: data)
    (last : '1' ∉ data) :
    hrp = before.map Char.toLower ∧ ∃ all, (data.map Char.toLower).mapM Symbol.ofChar? = some all ∧
      isIntact hrp all ∧ symbols = all.take (all.length - 6) := by
  obtain ⟨allowed, found, all, cut, -, read, intact, rest⟩ := decode?_eq_some_iff.mp decoded
  rw [Bool.and_eq_true, List.all_eq_true] at allowed
  have absent : '1' ∉ data.map Char.toLower := by
    intro inside
    obtain ⟨c, member, one⟩ := List.mem_map.mp inside
    have plain : isPlain c := allowed.1 c (by simp [whole, member])
    exact last (eq_one_of_toLower plain one ▸ member)
  rw [whole, List.map_append, List.map_cons, show Char.toLower '1' = '1' from rfl,
    cutAtLastOne_append absent] at cut
  cases cut
  exact ⟨rfl, all, read, intact, rest⟩

theorem Altered.one_not_mem {n : Nat} {text other : List Char}
    (altered : Altered StandsIn n text other) (absent : '1' ∉ text) : '1' ∉ other := by
  induction altered with
  | nil => exact absent
  | kept c _ ih =>
    rw [List.mem_cons, not_or] at absent ⊢
    exact ⟨absent.1, ih absent.2⟩
  | replaced differs _ ih =>
    rw [List.mem_cons, not_or] at absent ⊢
    exact ⟨(ne_one_of_isSymbol differs.1).symm, ih absent.2⟩

theorem Altered.exists_symbols {n : Nat} {text other : List Char} {symbols : List Symbol}
    (altered : Altered StandsIn n text other)
    (read : (text.map Char.toLower).mapM Symbol.ofChar? = some symbols) :
    ∃ others, (other.map Char.toLower).mapM Symbol.ofChar? = some others ∧
      Altered (· ≠ ·) n symbols others := by
  induction altered generalizing symbols with
  | nil =>
    cases read
    exact ⟨[], rfl, .nil⟩
  | @kept _ _ other c _ ih =>
    simp only [List.map_cons, List.mapM_cons, Option.bind_eq_bind, Option.bind_eq_some_iff,
      Option.pure_def, Option.some.injEq] at read ⊢
    obtain ⟨s, first, later, rest, rfl⟩ := read
    obtain ⟨others, found, alters⟩ := ih rest
    exact ⟨s :: others, ⟨s, first, others, found, rfl⟩, .kept s alters⟩
  | @replaced _ _ other c d differs _ ih =>
    simp only [List.map_cons, List.mapM_cons, Option.bind_eq_bind, Option.bind_eq_some_iff,
      Option.pure_def, Option.some.injEq] at read ⊢
    obtain ⟨s, first, later, rest, rfl⟩ := read
    obtain ⟨others, found, alters⟩ := ih rest
    obtain ⟨⟨t, second⟩, different⟩ := differs
    refine ⟨t :: others, ⟨t, second, others, found, rfl⟩, .replaced ?_ alters⟩
    rintro rfl
    exact different ((Symbol.char_of_ofChar? second).symm.trans (Symbol.char_of_ofChar? first))

theorem length_le_of_bytesOfSymbols? {symbols : List Symbol} {bytes : List UInt8}
    (read : bytesOfSymbols? symbols = some bytes) (few : bytes.length ≤ 255) :
    symbols.length ≤ 408 := by
  obtain ⟨zeros, padding, whole⟩ := eq_of_bytesOfBits? read
  have size := congrArg List.length whole
  have eights : (bytes.flatMap fun b => bits 8 b.toNat).length = 8 * bytes.length := by
    simp [List.length_flatMap, Nat.mul_comm]
  rw [length_flatMap_bits, List.length_append, List.length_replicate, eights] at size
  omega

end RoundScoring.Bech32

namespace RoundScoring.Address

/-- A text with so many of the characters behind the last `1` replaced by those of other symbols. -/
def Mistypes (n : Nat) (text other : String) : Prop :=
  ∃ before data data', text.toList = before ++ '1' :: data ∧ '1' ∉ data ∧
    other.toList = before ++ '1' :: data' ∧ Bech32.Altered Bech32.StandsIn n data data'

theorem parse_eq_malformed {required : Option String} {text : String} (written : text ≠ "")
    (unread : Bech32.decode? text.toList = none) : parse required text = .error (.malformed text) := by
  unfold parse
  rw [if_neg written, unread]

/-- Up to 1023 symbols would be told apart, and an account has at most 414. -/
theorem mistyped_text_is_refused {required : Option String} {text other : String} {a : Address} {n : Nat}
    (parsed : parse required text = .ok a) (mistypes : Mistypes n text other) (least : 1 ≤ n)
    (most : n ≤ 2) (required' : Option String) :
    parse required' other = .error (.malformed other) := by
  obtain ⟨-, symbols, decoded, -, bytes, fits⟩ := parse_eq_ok_iff.mp parsed
  obtain ⟨before, data, data', whole, last, retyped, altered⟩ := mistypes
  obtain ⟨part, all, read, intact, rfl⟩ := Bech32.cut_of_decode? decoded whole last
  obtain ⟨all', read', altered'⟩ := altered.exists_symbols read
  have near : all.length ≤ 1023 := by
    have short := Bech32.length_le_of_bytesOfSymbols? bytes fits.2
    rw [List.length_take] at short
    omega
  apply parse_eq_malformed
  · rintro rfl
    cases before <;> cases retyped
  · rw [Option.eq_none_iff_forall_ne_some]
    rintro ⟨hrp', symbols'⟩ decoded'
    obtain ⟨part', found, again, intact', -⟩ :=
      Bech32.cut_of_decode? decoded' retyped (altered.one_not_mem last)
    cases read'.symm.trans again
    rw [part] at intact
    rw [part'] at intact'
    exact Bech32.not_isIntact_of_altered intact altered' least most near intact'

/-- The first and the last character of a text in capitals, the human readable part of which has a `1`
in it, become those of other symbols. -/
theorem two_mistyped_are_refused :
    parse none "A11QULRY4KE" = .ok ⟨"a1", [7]⟩ ∧ Mistypes 2 "A11QULRY4KE" "A11PULRY4K3" ∧
      1 ≤ 2 ∧ 2 ≤ 2 ∧ parse none "A11PULRY4K3" = .error (.malformed "A11PULRY4K3") := by
  have parsed : parse none "A11QULRY4KE" = .ok ⟨"a1", [7]⟩ := by decide
  have mistypes : Mistypes 2 "A11QULRY4KE" "A11PULRY4K3" := by
    refine ⟨['A', '1'], "QULRY4KE".toList, "PULRY4K3".toList, by decide, by decide,
      by decide, ?_⟩
    exact .replaced (by decide) (.kept _ (.kept _ (.kept _ (.kept _ (.kept _ (.kept _
      (.replaced (by decide) .nil)))))))
  exact ⟨parsed, mistypes, by decide, le_rfl,
    mistyped_text_is_refused parsed mistypes (by decide) le_rfl none⟩

end RoundScoring.Address
