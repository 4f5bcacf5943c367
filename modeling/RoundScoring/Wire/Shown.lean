import RoundScoring.Text.Hex
import RoundScoring.Wire.Assignment

/-!
Records as they are shown. A value that was assigned is shown where it can stand: as a number where
numbers belong, and as it came where a text or a whole number does.
-/

namespace RoundScoring.Wire

open Decimal

/-! What a field shows of a value that was assigned to it. -/

/-- The number that a text shows. Digits of every script count, the ends may be blank, and
underscores stand between digits only. -/
def shownNumeral? (text : String) : Option Float :=
  let text := Text.Blank.trimmed (text.toList.map Text.Digit.plain)
  if Numeral.marksAmongDigits false text then Numeral.float? (text.filter (· ≠ '_')) else none

def shownNumber : Value → Except Misuse (Option Float)
  | .null => .ok none
  | .bool b => .ok (some (if b then 1.0 else 0.0))
  | .int n =>
      let nearest := Numeral.toFloat (n < 0) n.natAbs 0
      if nearest.isInf then .error .numberTooLarge else .ok (some nearest)
  | .float x => .ok (some x)
  | .text s =>
      match shownNumeral? s with
      | some x => .ok (some x)
      | none => .error (.notNumeral s)
  | v => .error (.notNumber v.typeName)

/-- A collection shows no records, because no assigned value has the fields of one; `field` is the
one that is missed first. -/
def shownRecords {α : Type} (field : String) : Value → Except Misuse (List α)
  | .list (v :: _) => .error (.lacksField v.typeName field)
  | .list [] | .object [] => .ok []
  | .object _ => .error (.lacksField (Value.typeName (.text "")) field)
  | .text s => if s.isEmpty then .ok [] else .error (.lacksField (Value.typeName (.text s)) field)
  | v => .error (.notList v.typeName)

def shownPart {α : Type} (field : String) (v : Value) : Except Misuse α :=
  .error (.lacksField v.typeName field)

/-- Bytes and numbers that may have a fraction are shown in base sixteen, and nothing else is. -/
def shownSignature : Value → Except Misuse String
  | .float x => .ok (Text.Hex.ofFloat x)
  | v => shownPart "hex" v

/-! What a record of each kind shows. -/

structure ShownScore where
  topic : Value
  block : Value
  account : Value
  value : Option Float

structure ShownLoss where
  worker : Value
  loss : Option Float

structure ShownBundle where
  topic : Value
  combined : Option Float
  naive : Option Float
  oneOutInferer : List ShownLoss
  oneOutForecaster : List ShownLoss
  oneInForecaster : List ShownLoss

structure ShownSigned where
  reputer : Value
  bundle : ShownBundle
  signature : String

inductive Shown where
  | workerLoss (loss : ShownLoss)
  | bundle (bundle : ShownBundle)
  | signedBundle (bundle : ShownSigned)
  | signedBundles (bundles : List ShownSigned)
  | score (score : ShownScore)
  | coefficient (value : Option Float)

def ShownScore.of (score : Score Float) : ShownScore :=
  ⟨.int score.topic, .int score.block, .text score.account, some score.value⟩

def ShownLoss.of (loss : WorkerLoss Float) : ShownLoss := ⟨.text loss.worker, some loss.loss⟩

def ShownBundle.of (bundle : Bundle Float) : ShownBundle where
  topic := .int bundle.topic
  combined := bundle.combined
  naive := bundle.naive
  oneOutInferer := bundle.oneOutInferer.map .of
  oneOutForecaster := bundle.oneOutForecaster.map .of
  oneInForecaster := bundle.oneInForecaster.map .of

def ShownSigned.of (sent : SignedBundle) : ShownSigned :=
  ⟨.text sent.reputer, .of sent.bundle, Text.Hex.ofBytes sent.signature⟩

def Shown.of : Record → Shown
  | .workerLoss own => .workerLoss (.of own)
  | .bundle own => .bundle (.of own)
  | .signedBundle own => .signedBundle (.of own)
  | .signedBundles own => .signedBundles (own.map .of)
  | .score own => .score (.of own)
  | .coefficient own => .coefficient (some own)

/-- A field shows what was assigned to it last, or else what was received, if the record still holds
that. -/
def OpenRecord.field {α : Type} (r : OpenRecord) (name : String)
    (show? : Value → Except Misuse α) (received : α) : Except Misuse α :=
  match r.assigned.lookup name with
  | some v => show? v
  | none =>
      if r.keepsReceived then .ok received else .error (.lacksField r.record.kind.name name)

def OpenRecord.shown (r : OpenRecord) : Except Misuse Shown := do
  match r.record with
  | .workerLoss loss =>
      let own := ShownLoss.of loss
      return .workerLoss ⟨← r.field "worker" .ok own.worker, ← r.field "value" shownNumber own.loss⟩
  | .bundle bundle =>
      let own := ShownBundle.of bundle
      let losses name received := r.field name (shownRecords "worker") received
      return .bundle ⟨← r.field "topic_id" .ok own.topic,
        ← r.field "combined_value" shownNumber own.combined,
        ← r.field "naive_value" shownNumber own.naive,
        ← losses "one_out_inferer_values" own.oneOutInferer,
        ← losses "one_out_forecaster_values" own.oneOutForecaster,
        ← losses "one_in_forecaster_values" own.oneInForecaster⟩
  | .signedBundle sent =>
      let own := ShownSigned.of sent
      return .signedBundle ⟨← r.field "reputer" .ok own.reputer,
        ← r.field "value_bundle" (shownPart "topic_id") own.bundle,
        ← r.field "signature" shownSignature own.signature⟩
  | .signedBundles sent =>
      return .signedBundles
        (← r.field "reputer_value_bundles" (shownRecords "coefficient") (sent.map .of))
  | .score score =>
      let own := ShownScore.of score
      return .score ⟨← r.field "topic_id" .ok own.topic, ← r.field "block_number" .ok own.block,
        ← r.field "address" .ok own.account, ← r.field "score" shownNumber own.value⟩
  | .coefficient value =>
      return .coefficient (← r.field "coefficient" shownNumber (some value))

end RoundScoring.Wire
