import RoundScoring.Binary64.Rounding
import RoundScoring.Decimal.Numeral
import RoundScoring.Text.Characters
import RoundScoring.Wire.Value

/-!
Reading fields with some tolerance: a number may come as a truth value or a text, and a whole number
as a number without a fraction. Texts, bytes and lists come as nothing else. Fields that a record
does not have are ignored.
-/

namespace RoundScoring.Wire

open Decimal

/-- Reads a decimal. Its ends may be blank, or it may hold underscores, but not both. -/
def readDecimal? (text : List Char) : Option Float :=
  (Numeral.float? (Text.Blank.trimmed text)).or
    ((Numeral.withoutMarks? text).bind Numeral.float?)

def longestInteger : Nat := 4300

/-- Only digits at the very front, behind nothing but a minus, are noticed to be too many; what
follows them is not looked at any more. -/
def beginsTooLong (text : List Char) : Bool :=
  let digits := (if text.head? = some '-' then text.tail else text).takeWhile Char.isDigit
  digits.head? ≠ some '0' && longestInteger < digits.length

def readInteger? (text : List Char) : Option Int :=
  match Numeral.canonicalInteger? (Text.Blank.trimmed text) with
  | some canonical =>
      if (Numeral.sign canonical).2.length ≤ longestInteger then
        some (Numeral.integerOf canonical)
      else none
  | none => none

def wholeNumber? (x : Float) : Option Int :=
  match Binary64.content x with
  | .finite negative significand exponent =>
      let unit := Binary64.powerOfTwo (-exponent).toNat
      let scaled := significand * Binary64.powerOfTwo exponent.toNat
      if scaled % unit = 0 then some (Numeral.signed negative (scaled / unit)) else none
  | _ => none

/-- A float is read as a whole number only if it is smaller than this in magnitude. -/
def widestWhole : Nat := Binary64.powerOfTwo 63

def readFloat : Value → Checked Float
  | .int n =>
      let nearest := Numeral.toFloat (n < 0) n.natAbs 0
      if nearest.isInf then .refused .notFloat else .ok nearest
  | .float x => .ok x
  | .bool b => .ok (if b then 1.0 else 0.0)
  | .text s =>
      match readDecimal? s.toList with
      | some x => .ok x
      | none => .refused .floatNotRead
  | _ => .refused .notFloat

def readInt : Value → Checked Int
  | .int n => .ok n
  | .float x =>
      if x.isFinite then
        match wholeNumber? x with
        | some n => if n.natAbs < widestWhole then .ok n else .refused .intTooLarge
        | none => .refused .intWithFraction
      else .refused .intNotFinite
  | .bool b => .ok (if b then 1 else 0)
  | .text s =>
      if beginsTooLong s.toList then .refused .intTooLarge
      else
        match readInteger? s.toList with
        | some n => .ok n
        | none => .refused .intNotRead
  | _ => .refused .notInt

def readText : Value → Checked String
  | .text s => .ok s
  | _ => .refused .notText

def readBytes : Value → Checked (List UInt8)
  | .text s => .ok s.toUTF8.toList
  | _ => .refused .notBytes

def readList {α : Type} (read : Value → Checked α) : Value → Checked (List α)
  | .list values => .elements read 0 values
  | _ => .refused .notList

def readOrNull {α : Type} (read : Value → Checked α) : Value → Checked (Option α)
  | .null => .ok none
  | v => (read v).map some

abbrev Fields : Type := List (String × Value)

def readRecord {α : Type} (read : Fields → Checked α) : Value → Checked α
  | .object fields => read fields
  | _ => .refused .notRecord

def Fields.required {α : Type} (fields : Fields) (name : String) (read : Value → Checked α) :
    Checked α :=
  .within (.field name) (match fields.lookup name with
    | some v => read v
    | none => .refused .missing)

/-- A field that is absent has its default, which is not checked. -/
def Fields.defaulted {α : Type} (fields : Fields) (name : String) (default : α)
    (read : Value → Checked α) : Checked α :=
  match fields.lookup name with
  | some v => .within (.field name) (read v)
  | none => .ok default

section Success

variable {α : Type} {read : Value → Checked α} {fields : Fields} {name : String} {v : Value} {a : α}

theorem readRecord_eq_ok_iff {read : Fields → Checked α} :
    readRecord read v = .ok a ↔ ∃ fields, v = .object fields ∧ read fields = .ok a := by
  cases v <;> simp [readRecord]

theorem Fields.required_eq_ok_iff :
    fields.required name read = .ok a ↔ ∃ v, fields.lookup name = some v ∧ read v = .ok a := by
  unfold Fields.required
  cases fields.lookup name <;> simp

theorem Fields.required_of_lookup (found : fields.lookup name = some v) (reads : read v = .ok a) :
    fields.required name read = .ok a :=
  required_eq_ok_iff.mpr ⟨v, found, reads⟩

theorem Fields.defaulted_eq_ok_iff {default : α} :
    fields.defaulted name default read = .ok a ↔
      (∃ v, fields.lookup name = some v ∧ read v = .ok a) ∨
        fields.lookup name = none ∧ default = a := by
  unfold Fields.defaulted
  cases fields.lookup name <;> simp

theorem Fields.defaulted_of_lookup {default : α} (found : fields.lookup name = some v)
    (reads : read v = .ok a) : fields.defaulted name default read = .ok a :=
  defaulted_eq_ok_iff.mpr (.inl ⟨v, found, reads⟩)

end Success

end RoundScoring.Wire
