import RoundScoring.Binary64.Elementary
import RoundScoring.Loss.Bundle
import RoundScoring.Wire.Reading

/-!
The records of scoring as they are received. Receiving one checks every field of it.
-/

namespace RoundScoring.Wire

structure SignedBundle where
  reputer : String
  bundle : Bundle Float
  signature : List UInt8

inductive Record where
  | workerLoss (loss : WorkerLoss Float)
  | bundle (bundle : Bundle Float)
  | signedBundle (bundle : SignedBundle)
  | signedBundles (bundles : List SignedBundle)
  | score (score : Score Float)
  | coefficient (value : Float)

inductive RecordKind where
  | workerLoss
  | bundle
  | signedBundle
  | signedBundles
  | score
  | coefficient
deriving DecidableEq

def RecordKind.name : RecordKind → String
  | .workerLoss => "WorkerValue"
  | .bundle => "ValueBundle"
  | .signedBundle => "ReputerValueBundle"
  | .signedBundles => "ReputerValueBundles"
  | .score => "Score"
  | .coefficient => "ListeningCoefficient"

def RecordKind.fields : RecordKind → List String
  | .workerLoss => ["worker", "value"]
  | .bundle => ["topic_id", "combined_value", "naive_value", "one_out_inferer_values",
      "one_out_forecaster_values", "one_in_forecaster_values"]
  | .signedBundle => ["reputer", "value_bundle", "signature"]
  | .signedBundles => ["reputer_value_bundles"]
  | .score => ["topic_id", "block_number", "address", "score"]
  | .coefficient => ["coefficient"]

def Record.kind : Record → RecordKind
  | .workerLoss _ => .workerLoss
  | .bundle _ => .bundle
  | .signedBundle _ => .signedBundle
  | .signedBundles _ => .signedBundles
  | .score _ => .score
  | .coefficient _ => .coefficient

def readWorkerLoss : Value → Checked (WorkerLoss Float) :=
  readRecord fun fields =>
    Checked.pure WorkerLoss.mk
      |>.and (fields.required "worker" readText)
      |>.and (fields.required "value" readFloat)

def readBundle : Value → Checked (Bundle Float) :=
  readRecord fun fields =>
    let losses name := fields.defaulted name [] (readList readWorkerLoss)
    Checked.pure Bundle.mk
      |>.and (fields.defaulted "topic_id" 0 readInt)
      |>.and (fields.defaulted "combined_value" none (readOrNull readFloat))
      |>.and (fields.defaulted "naive_value" none (readOrNull readFloat))
      |>.and (losses "one_out_inferer_values")
      |>.and (losses "one_out_forecaster_values")
      |>.and (losses "one_in_forecaster_values")

def readSignedBundle : Value → Checked SignedBundle :=
  readRecord fun fields =>
    Checked.pure SignedBundle.mk
      |>.and (fields.required "reputer" readText)
      |>.and (fields.required "value_bundle" readBundle)
      |>.and (fields.defaulted "signature" [] readBytes)

def readSignedBundles : Value → Checked (List SignedBundle) :=
  readRecord fun fields =>
    fields.defaulted "reputer_value_bundles" [] (readList readSignedBundle)

def readScore : Value → Checked (Score Float) :=
  readRecord fun fields =>
    Checked.pure Score.mk
      |>.and (fields.required "topic_id" readInt)
      |>.and (fields.required "block_number" readInt)
      |>.and (fields.required "address" readText)
      |>.and (fields.required "score" readFloat)

def readAboveLeast (v : Value) : Checked Float :=
  match readFloat v with
  | .ok x => if 0.0 ≤ x then .ok x else .refused .belowLeast
  | .error problems => .error problems

def readCoefficient : Value → Checked Float :=
  readRecord fun fields => fields.defaulted "coefficient" neutralCoefficient readAboveLeast

def read (kind : RecordKind) (v : Value) : Checked Record :=
  match kind with
  | .workerLoss => (readWorkerLoss v).map .workerLoss
  | .bundle => (readBundle v).map .bundle
  | .signedBundle => (readSignedBundle v).map .signedBundle
  | .signedBundles => (readSignedBundles v).map .signedBundles
  | .score => (readScore v).map .score
  | .coefficient => (readCoefficient v).map .coefficient

end RoundScoring.Wire
