import RoundScoring.Proofs.Bech32.Corruption

/-!
Accounts that are built from their parts, and which of them can be read back from the text that is
written for them. Building asks of a human readable part only that there is one and that it is in lower
case; reading also asks that it has at most 83 characters and that all of them are plain. Main
statement: an account that is built is read back just when its human readable part is so
(`Address.built_account_is_read_back_or_refused`).
-/

namespace RoundScoring.Address

open Bech32 (isPlain)

/-- A human readable part that the reader takes in, if it is in lower case. -/
structure Readable (hrp : String) : Prop where
  plain : ∀ c ∈ hrp.toList, isPlain c
  size : hrp.length ≤ 83

theorem ofBytes_eq_ok_iff {hrp : String} {payload : List UInt8} {a : Address} :
    ofBytes hrp payload = .ok a ↔
      PayloadFits payload ∧ (hrp ≠ "" ∧ Text.LowerCase.isLowerCase hrp.toList) ∧ a = ⟨hrp, payload⟩ := by
  unfold ofBytes
  by_cases fits : PayloadFits payload
  · rw [if_neg (not_not.mpr fits)]
    by_cases wrong : hrp = "" ∨ ¬Text.LowerCase.isLowerCase hrp.toList
    · rw [if_pos wrong]
      refine iff_of_false (by simp) fun ⟨_, right, _⟩ => ?_
      exact wrong.elim right.1 fun upper => upper right.2
    · rw [if_neg wrong, Except.ok.injEq, eq_comm]
      rw [not_or, not_not] at wrong
      exact ⟨fun same => ⟨fits, wrong, same⟩, fun all => all.2.2⟩
  · rw [if_pos fits]
    exact iff_of_false (by simp) fun all => fits all.1

theorem isUpper_of_isLowerCase {hrp : String} (lower : Text.LowerCase.isLowerCase hrp.toList) :
    ∀ c ∈ hrp.toList, c.isUpper = false := by
  intro c inside
  have unchanged := List.all_eq_true.mp lower c inside
  rw [Bool.not_eq_true', ← Bool.not_eq_true] at unchanged
  rw [← Bool.not_eq_true]
  exact mt (Text.LowerCase.changes_of_isUpper c) unchanged

theorem printable_of_ofBytes {hrp : String} {payload : List UInt8} {a : Address}
    (built : ofBytes hrp payload = .ok a) (readable : Readable hrp) : a.Printable := by
  obtain ⟨fits, ⟨named, lower⟩, rfl⟩ := ofBytes_eq_ok_iff.mp built
  have filled : hrp.toList ≠ [] := fun none => named (String.toList_injective none)
  exact ⟨⟨readable.plain, isUpper_of_isLowerCase lower, List.length_pos_iff.mpr filled,
    readable.size⟩, fits⟩

theorem readable_of_decode? {a : Address} {hrp : List Char} {symbols : List Bech32.Symbol}
    (decoded : Bech32.decode? a.text.toList = some (hrp, symbols)) : Readable a.hrp := by
  unfold text at decoded
  rw [String.toList_ofList] at decoded
  obtain ⟨rfl, -⟩ := Bech32.cut_of_decode? decoded rfl (Bech32.one_not_mem_map_char _)
  obtain ⟨allowed, _, _, -, ⟨-, short, -⟩, -⟩ := Bech32.decode?_eq_some_iff.mp decoded
  rw [Bool.and_eq_true, List.all_eq_true] at allowed
  refine ⟨fun c inside => allowed.1 c (List.mem_append_left _ inside), ?_⟩
  rwa [List.length_map] at short

/-- Building and reading ask different things of a human readable part, so some accounts that can be
built have a text that is refused. -/
theorem built_account_is_read_back_or_refused {hrp : String} {payload : List UInt8} {a : Address}
    (built : ofBytes hrp payload = .ok a) :
    (Readable hrp → ∀ required, (∀ other ∈ required, other = hrp) → parse required a.text = .ok a) ∧
      (¬Readable hrp → ∀ required, parse required a.text = .error (.malformed a.text)) := by
  obtain ⟨-, -, same⟩ := ofBytes_eq_ok_iff.mp built
  refine ⟨fun readable required allowed => ?_, fun unreadable required => ?_⟩
  · have printable := printable_of_ofBytes built readable
    rw [same] at printable ⊢
    exact parse_text_of_proper printable.hrp printable.payload allowed
  · refine parse_eq_malformed a.text_ne_empty ?_
    rw [Option.eq_none_iff_forall_ne_some]
    rintro ⟨_, _⟩ decoded
    rw [same] at decoded
    exact unreadable (readable_of_decode? decoded)

def letters (n : Nat) : String := String.ofList (List.replicate n 'h')

theorem length_letters (n : Nat) : (letters n).length = n := by
  rw [letters, String.length_ofList, List.length_replicate]

theorem ofBytes_letters {n : Nat} (filled : n ≠ 0) :
    ofBytes (letters n) [7] = .ok ⟨letters n, [7]⟩ := by
  refine ofBytes_eq_ok_iff.mpr ⟨by decide, ⟨?_, ?_⟩, rfl⟩
  · intro empty
    have none := congrArg String.toList empty
    simp [letters, filled] at none
  · have same : Text.LowerCase.changes 'h' = false := by decide
    simp [letters, Text.LowerCase.isLowerCase, same]

/-- As many letters as the reader takes in, and one more. -/
theorem letters_are_read_back_or_refused :
    (∃ a, ofBytes (letters 83) [7] = .ok a ∧ parse none a.text = .ok a) ∧
      ∃ a, ofBytes (letters 84) [7] = .ok a ∧ parse none a.text = .error (.malformed a.text) := by
  have few := ofBytes_letters (n := 83) (by decide)
  have many := ofBytes_letters (n := 84) (by decide)
  have readable : Readable (letters 83) := by
    refine ⟨fun c inside => ?_, (length_letters 83).le⟩
    rw [letters, String.toList_ofList] at inside
    rw [List.eq_of_mem_replicate inside]
    decide
  have unreadable : ¬Readable (letters 84) := by
    intro found
    have size := found.size
    rw [length_letters] at size
    omega
  exact ⟨⟨_, few, (built_account_is_read_back_or_refused few).1 readable none (by simp)⟩,
    ⟨_, many, (built_account_is_read_back_or_refused many).2 unreadable none⟩⟩

/-- A blank is accepted as a human readable part, and its text is refused. -/
theorem blank_part_is_not_read_back :
    ofBytes " " [7] = .ok ⟨" ", [7]⟩ ∧ parse none (text ⟨" ", [7]⟩) ≠ .ok ⟨" ", [7]⟩ := by
  decide

end RoundScoring.Address
