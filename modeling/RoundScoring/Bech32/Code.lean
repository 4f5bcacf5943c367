import RoundScoring.Bech32.Checksum

/-!
Bech32 texts: a human readable part, the last `1`, symbols, and six symbols of checksum. The text may
be of any length, and is read in either case but not in both; the reader works on its lower case.
-/

namespace RoundScoring.Bech32

def encode (hrp : List Char) (symbols : List Symbol) : List Char :=
  hrp ++ '1' :: (symbols ++ checksum hrp symbols).map Symbol.char

def cutAtLastOne : List Char → Option (List Char × List Char)
  | [] => none
  | c :: rest =>
      match cutAtLastOne rest with
      | some (before, after) => some (c :: before, after)
      | none => if c = '1' then some ([], rest) else none

def isPlain (c : Char) : Bool := 33 ≤ c.toNat && c.toNat ≤ 126

def isOneCase (text : List Char) : Bool :=
  text.all (fun c => !c.isUpper) || text.all (fun c => !c.isLower)

/-- The human readable part and the symbols before the checksum. -/
def decode? (text : List Char) : Option (List Char × List Symbol) := do
  guard (text.all isPlain && isOneCase text)
  let (hrp, data) ← cutAtLastOne (text.map Char.toLower)
  guard (1 ≤ hrp.length ∧ hrp.length ≤ 83 ∧ 6 ≤ data.length)
  let symbols ← data.mapM Symbol.ofChar?
  guard (isIntact hrp symbols)
  return (hrp, symbols.take (symbols.length - 6))

theorem cutAtLastOne_eq_none_iff {text : List Char} :
    cutAtLastOne text = none ↔ '1' ∉ text := by
  induction text with
  | nil => simp [cutAtLastOne]
  | cons c rest ih =>
    unfold cutAtLastOne
    split
    next found => simp [← ih, found]
    next missing =>
      have absent := ih.mp missing
      by_cases one : c = '1'
      · simp [one]
      · simp [one, absent, Ne.symm one]

theorem eq_of_cutAtLastOne {text before after : List Char}
    (cut : cutAtLastOne text = some (before, after)) :
    text = before ++ '1' :: after ∧ '1' ∉ after := by
  induction text generalizing before after with
  | nil => simp [cutAtLastOne] at cut
  | cons c rest ih =>
    unfold cutAtLastOne at cut
    split at cut
    next found =>
      simp only [Option.some.injEq, Prod.mk.injEq] at cut
      obtain ⟨rfl, rfl⟩ := cut
      obtain ⟨whole, absent⟩ := ih found
      exact ⟨by simp [← whole], absent⟩
    next missing =>
      split at cut
      next one =>
        simp only [Option.some.injEq, Prod.mk.injEq] at cut
        obtain ⟨rfl, rfl⟩ := cut
        exact ⟨by simp [one], cutAtLastOne_eq_none_iff.mp missing⟩
      next => simp at cut

theorem cutAtLastOne_append {before after : List Char} (absent : '1' ∉ after) :
    cutAtLastOne (before ++ '1' :: after) = some (before, after) := by
  induction before with
  | nil => simp [cutAtLastOne, cutAtLastOne_eq_none_iff.mpr absent]
  | cons c rest ih => simp [cutAtLastOne, ih]

end RoundScoring.Bech32
