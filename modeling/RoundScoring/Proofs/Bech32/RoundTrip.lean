import Mathlib.Data.List.Forall2
import RoundScoring.Address
import RoundScoring.Bech32.Lemmas
import RoundScoring.Proofs.Bech32.Checksum

/-!
What is written is read back: a bech32 text from its human readable part and symbols
(`decode?_encode`), and an account that was read from some text from the text that is written for it
(`Address.parse_text`). A human readable part that the reader returns is one that it takes in again.
-/

namespace RoundScoring.Bech32

theorem guard_eq_some_iff {p : Prop} [Decidable p] {u : Unit} :
    (guard p : Option Unit) = some u ↔ p := by
  unfold guard
  split <;> simp_all

theorem decode?_eq_some_iff {text hrp : List Char} {symbols : List Symbol} :
    decode? text = some (hrp, symbols) ↔
      (text.all isPlain && isOneCase text) ∧ ∃ data whole,
        cutAtLastOne (text.map Char.toLower) = some (hrp, data) ∧
        (1 ≤ hrp.length ∧ hrp.length ≤ 83 ∧ 6 ≤ data.length) ∧
        data.mapM Symbol.ofChar? = some whole ∧ isIntact hrp whole ∧
        symbols = whole.take (whole.length - 6) := by
  unfold decode?
  simp only [Option.bind_eq_bind, Option.bind_eq_some_iff, guard_eq_some_iff, Prod.exists,
    exists_const, exists_and_left, Option.pure_def, Option.some.injEq, Prod.mk.injEq]
  constructor
  · rintro ⟨plain, _, data, cut, sizes, whole, read, intact, rfl, rfl⟩
    exact ⟨plain, data, cut, sizes, whole, read, intact, rfl⟩
  · rintro ⟨plain, data, cut, sizes, whole, read, intact, rfl⟩
    exact ⟨plain, hrp, data, cut, sizes, whole, read, intact, rfl, rfl⟩

structure Proper (hrp : List Char) : Prop where
  plain : ∀ c ∈ hrp, isPlain c
  lower : ∀ c ∈ hrp, c.isUpper = false
  size : 1 ≤ hrp.length ∧ hrp.length ≤ 83

/-- There are few plain characters, so what holds of all of them is checked on each. -/
theorem of_isPlain {p : Char → Prop}
    (few : ∀ n : Fin 127, isPlain (Char.ofNat n) → p (Char.ofNat n)) {c : Char}
    (plain : isPlain c) : p c := by
  have small : c.toNat < 127 := by
    unfold isPlain at plain
    simp only [Bool.and_eq_true, decide_eq_true_eq] at plain
    omega
  have found := few ⟨c.toNat, small⟩
  rw [Char.ofNat_toNat] at found
  exact found plain

theorem toLower_of_isPlain {c : Char} (plain : isPlain c) :
    isPlain c.toLower ∧ c.toLower.isUpper = false ∧ (c.isUpper = false → c.toLower = c) := by
  refine of_isPlain (p := fun c => isPlain c.toLower ∧ c.toLower.isUpper = false ∧
    (c.isUpper = false → c.toLower = c)) ?_ plain
  decide

theorem Symbol.char_plain (s : Symbol) :
    isPlain s.char ∧ s.char.isUpper = false ∧ s.char ≠ '1' := by
  revert s
  decide

theorem one_not_mem_map_char (symbols : List Symbol) : '1' ∉ symbols.map Symbol.char := by
  intro inside
  obtain ⟨s, -, same⟩ := List.mem_map.mp inside
  exact s.char_plain.2.2 same

theorem mapM_ofChar?_char (symbols : List Symbol) :
    (symbols.map Symbol.char).mapM Symbol.ofChar? = some symbols := by
  induction symbols with
  | nil => rfl
  | cons s symbols ih =>
    rw [List.map_cons, List.mapM_cons, Symbol.ofChar?_char, ih]
    rfl

theorem proper_encode {hrp : List Char} (proper : Proper hrp) (symbols : List Symbol) :
    ∀ c ∈ encode hrp symbols, isPlain c ∧ c.isUpper = false := by
  intro c inside
  unfold encode at inside
  rcases List.mem_append.mp inside with part | rest
  · exact ⟨proper.plain c part, proper.lower c part⟩
  rcases List.mem_cons.mp rest with rfl | symbol
  · decide
  · obtain ⟨s, -, rfl⟩ := List.mem_map.mp symbol
    exact ⟨s.char_plain.1, s.char_plain.2.1⟩

theorem decode?_encode {hrp : List Char} (proper : Proper hrp) (symbols : List Symbol) :
    decode? (encode hrp symbols) = some (hrp, symbols) := by
  have written := proper_encode proper symbols
  have plain : (encode hrp symbols).all isPlain && isOneCase (encode hrp symbols) := by
    unfold isOneCase
    rw [Bool.and_eq_true, Bool.or_eq_true, List.all_eq_true, List.all_eq_true]
    refine ⟨fun c inside => (written c inside).1, .inl fun c inside => ?_⟩
    rw [(written c inside).2]
    rfl
  have lower : (encode hrp symbols).map Char.toLower = encode hrp symbols := by
    refine (List.map_congr_left fun c inside => ?_).trans (List.map_id _)
    obtain ⟨plain, small⟩ := written c inside
    exact (toLower_of_isPlain plain).2.2 small
  have sizes : 1 ≤ hrp.length ∧ hrp.length ≤ 83 ∧
      6 ≤ ((symbols ++ checksum hrp symbols).map Symbol.char).length := by
    refine ⟨proper.size.1, proper.size.2, ?_⟩
    rw [List.length_map, List.length_append, length_checksum]
    omega
  refine decode?_eq_some_iff.mpr ⟨plain, _, symbols ++ checksum hrp symbols, ?_, sizes,
    mapM_ofChar?_char _, isIntact_checksum hrp symbols, ?_⟩
  · rw [lower]
    exact cutAtLastOne_append (one_not_mem_map_char _)
  · rw [List.length_append, length_checksum, Nat.add_sub_cancel, List.take_left]

/-- What the reader returns is proper, because it works on the lower case. -/
theorem proper_of_decode? {text hrp : List Char} {symbols : List Symbol}
    (decoded : decode? text = some (hrp, symbols)) : Proper hrp := by
  obtain ⟨plain, data, _, cut, sizes, -⟩ := decode?_eq_some_iff.mp decoded
  rw [Bool.and_eq_true, List.all_eq_true] at plain
  have origin : ∀ c ∈ hrp, ∃ d, isPlain d ∧ d.toLower = c := by
    intro c inside
    have member : c ∈ text.map Char.toLower := by
      rw [(eq_of_cutAtLastOne cut).1]
      exact List.mem_append_left _ inside
    obtain ⟨d, written, same⟩ := List.mem_map.mp member
    exact ⟨d, plain.1 d written, same⟩
  refine ⟨fun c inside => ?_, fun c inside => ?_, sizes.1, sizes.2.1⟩
  · obtain ⟨d, allowed, rfl⟩ := origin c inside
    exact (toLower_of_isPlain allowed).1
  · obtain ⟨d, allowed, rfl⟩ := origin c inside
    exact (toLower_of_isPlain allowed).2.1

end RoundScoring.Bech32

namespace RoundScoring.Address

theorem parse_eq_ok_iff {required : Option String} {text : String} {a : Address} :
    parse required text = .ok a ↔
      text ≠ "" ∧ ∃ symbols, Bech32.decode? text.toList = some (a.hrp.toList, symbols) ∧
        (∀ other ∈ required, other = a.hrp) ∧ Bech32.bytesOfSymbols? symbols = some a.payload ∧
        PayloadFits a.payload := by
  unfold parse
  by_cases empty : text = ""
  · simp [empty]
  rw [if_neg empty]
  cases decoded : Bech32.decode? text.toList with
  | none => simp
  | some found =>
    obtain ⟨hrp, symbols⟩ := found
    dsimp only
    cases refused : required.filter (· ≠ String.ofList hrp) with
    | some other =>
      obtain ⟨asked, different⟩ := Option.filter_eq_some_iff.mp refused
      constructor
      · intro wrong
        cases wrong
      · rintro ⟨-, _, same, allowed, -⟩
        cases same
        simp [allowed other asked] at different
    | none =>
      have allowed : ∀ other ∈ required, other = String.ofList hrp := by
        intro other asked
        simpa using Option.filter_eq_none_iff.mp refused other asked
      cases read : (Bech32.bytesOfSymbols? symbols).filter (PayloadFits ·) with
      | none =>
        constructor
        · intro wrong
          cases wrong
        · rintro ⟨-, _, same, -, bytes, fits⟩
          cases same
          rw [bytes, Option.filter_some_eq_none] at read
          exact absurd (decide_eq_true fits) read
      | some payload =>
        obtain ⟨bytes, fits⟩ := Option.filter_eq_some_iff.mp read
        constructor
        · intro same
          cases same
          exact ⟨empty, symbols, by simp, allowed, bytes, by simpa using fits⟩
        · rintro ⟨-, _, same, -, bytes', -⟩
          cases same
          rw [bytes] at bytes'
          cases bytes'
          simp

theorem text_ne_empty (a : Address) : a.text ≠ "" := by
  intro empty
  have impossible := congrArg String.toList empty
  simp [Address.text, Bech32.encode] at impossible

theorem parse_text_of_proper {required : Option String} {a : Address}
    (proper : Bech32.Proper a.hrp.toList) (fits : PayloadFits a.payload)
    (allowed : ∀ other ∈ required, other = a.hrp) : parse required a.text = .ok a := by
  refine parse_eq_ok_iff.mpr ⟨a.text_ne_empty, Bech32.symbolsOfBytes a.payload, ?_, allowed,
    Bech32.bytesOfSymbols?_symbolsOfBytes a.payload, fits⟩
  unfold Address.text
  rw [String.toList_ofList]
  exact Bech32.decode?_encode proper _

theorem parse_text {required : Option String} {text : String} {a : Address}
    (parsed : parse required text = .ok a) : parse required a.text = .ok a := by
  obtain ⟨-, symbols, decoded, allowed, -, fits⟩ := parse_eq_ok_iff.mp parsed
  exact parse_text_of_proper (Bech32.proper_of_decode? decoded) fits allowed

end RoundScoring.Address
