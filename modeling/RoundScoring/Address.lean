import RoundScoring.Bech32.Code
import RoundScoring.Text.LowerCase
import RoundScoring.Text.Quoted

/-!
Accounts of reputers and workers. An account is the human readable part and the payload of its
bech32 text, so the spellings of one account are one value, and everything that scoring stores is
keyed by it.

Accounts are ordered by human readable part, code point by code point, and then by payload.
-/

namespace RoundScoring

structure Address where
  hrp : String
  payload : List UInt8
deriving DecidableEq

namespace Address

/-- The human readable part that is required where none is named. -/
def usualHrp : String := "allo"

/-- Why a text or some bytes denote no account. -/
inductive Problem where
  | empty
  | malformed (text : String)
  | otherHrp (required found : String)
  | payloadOfText (text : String)
  | payloadSize
  | hrpOfBytes (hrp : String)
deriving DecidableEq

open Text.Quoted (quoted) in
def Problem.message : Problem → String
  | .empty => "address must be a non-empty string"
  | .malformed text => "malformed bech32 address " ++ quoted text
  | .otherHrp required found => "expected prefix " ++ quoted required ++ ", got " ++ quoted found
  | .payloadOfText text => "invalid payload length in " ++ quoted text
  | .payloadSize => "address payload must be 1..255 bytes"
  | .hrpOfBytes hrp => "invalid address prefix " ++ quoted hrp

abbrev PayloadFits (payload : List UInt8) : Prop := 1 ≤ payload.length ∧ payload.length ≤ 255

/-- The account that a text denotes; without a required human readable part any one will do. -/
def parse (required : Option String) (text : String) : Except Problem Address :=
  if text = "" then .error .empty
  else match Bech32.decode? text.toList with
    | none => .error (.malformed text)
    | some (hrp, symbols) =>
        let found := String.ofList hrp
        match required.filter (· ≠ found) with
        | some other => .error (.otherHrp other found)
        | none =>
            match (Bech32.bytesOfSymbols? symbols).filter (PayloadFits ·) with
            | some payload => .ok ⟨found, payload⟩
            | none => .error (.payloadOfText text)

/-- An account from its parts. Only the case of the human readable part is looked at, so not every
account made here has a text that `parse` accepts. -/
def ofBytes (hrp : String) (payload : List UInt8) : Except Problem Address :=
  if ¬PayloadFits payload then .error .payloadSize
  else if hrp = "" ∨ ¬Text.LowerCase.isLowerCase hrp.toList then .error (.hrpOfBytes hrp)
  else .ok ⟨hrp, payload⟩

def text (a : Address) : String :=
  String.ofList (Bech32.encode a.hrp.toList (Bech32.symbolsOfBytes a.payload))

instance : Ord Address where
  compare := compareLex (compareOn Address.hrp) (compareOn Address.payload)

/-- In order, an account as often as it occurs. -/
def sorted (accounts : List Address) : List Address :=
  accounts.mergeSort fun a b => (compare a b).isLE

theorem compare_def (a b : Address) :
    compare a b = (compare a.hrp b.hrp).then (compare a.payload b.payload) := rfl

instance : Std.TransOrd Address :=
  inferInstanceAs (Std.TransCmp (compareLex (compareOn Address.hrp) (compareOn Address.payload)))

instance : Std.LawfulEqOrd Address where
  compare_self {a} := by simp
  eq_of_compare {a b} same := by
    rw [compare_def, Ordering.then_eq_eq, Std.compare_eq_iff_eq, Std.compare_eq_iff_eq] at same
    cases a
    cases b
    simp_all

end Address
end RoundScoring
