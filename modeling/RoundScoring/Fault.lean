import RoundScoring.Consensus.Config
import RoundScoring.Decimal.Shortest
import RoundScoring.Loss.Category
import RoundScoring.Score

/-!
Why scoring stops. A fault names its cause and carries what the cause is about; its kind and its
message are read off it here and nowhere else. The text of a coefficient's refusal is that of whoever
checks records, and so a parameter here.
-/

namespace RoundScoring

inductive LossRole where
  | full
  | heldOut
deriving DecidableEq

def LossRole.name : LossRole → String
  | .full => "loss"
  | .heldOut => "held_out_loss"

/-- What ends a program and is no failure of it. A round neither catches nor lists it. -/
def interruptions : List String :=
  ["BaseException", "BaseExceptionGroup", "GeneratorExit", "KeyboardInterrupt", "SystemExit"]

abbrev ExceptionName : Type := { name : String // name ∉ interruptions }

theorem runtimeError_not_interruption : "RuntimeError" ∉ interruptions := by
  simp [interruptions]

inductive Fault (R : Type) where
  /-- A loss without a logarithm was to be compared with another. -/
  | lossOutsideDomain (role : LossRole) (loss : R)
  | unevenPairs (weights losses : Nat)
  | noPairs
  | negativeWeight
  | noWeight
  | lossNotPositive
  | blendOutsideRange (factor : R)
  | workerTwice (text : String) (category : WorkerCategory)
  | reputerTwice (reputer : Address)
  | negativeStake
  | noStake
  | missingLoss (category : WholeCategory)
  | unpairedForecaster (worker : Address)
  | identity (problem : Address.Problem)
  | unknownStake (reputer : Address) (topic : Int)
  | unknownRoster (topic : Int)
  | scoreRecorded (kind : ScoreKind) (account : String) (topic block : Int)
  | unknownCategory (text : String)
  | notWhole (category : WorkerCategory)
  | notPerWorker (category : WholeCategory)
  | config (problem : Consensus.ConfigProblem)
  /-- A power is beyond the largest number. -/
  | overflow
  /-- A coefficient is below zero or no number. -/
  | coefficientRefused (coefficient : R)
  /-- The ledger is out of order, and raises an exception of its own. -/
  | outage (exception : ExceptionName) (message : String)
deriving DecidableEq

namespace Fault

inductive Kind where
  | domain
  | invalidInput
  | identity
  | notFound
  | duplicateScore
  | value
  | overflow
  | validation
  | outage (exception : ExceptionName)
deriving DecidableEq

def Kind.name : Kind → String
  | .domain => "DomainError"
  | .invalidInput => "InvalidInputError"
  | .identity => "IdentityError"
  | .notFound => "NotFoundError"
  | .duplicateScore => "DuplicateScoreError"
  | .value => "ValueError"
  | .overflow => "OverflowError"
  | .validation => "ValidationError"
  | .outage exception => exception.val

def kind {R : Type} : Fault R → Kind
  | .lossOutsideDomain .. => .domain
  | .unevenPairs .. | .noPairs | .negativeWeight | .noWeight | .lossNotPositive
  | .blendOutsideRange _ | .workerTwice .. | .reputerTwice _ | .negativeStake | .noStake
  | .missingLoss _ | .unpairedForecaster _ => .invalidInput
  | .identity _ => .identity
  | .unknownStake .. | .unknownRoster _ => .notFound
  | .scoreRecorded .. => .duplicateScore
  | .unknownCategory _ | .notWhole _ | .notPerWorker _ | .config _ => .value
  | .overflow => .overflow
  | .coefficientRefused _ => .validation
  | .outage exception _ => .outage exception

open Decimal (shortestText) in
def message (refusal : Float → String) : Fault Float → String
  | .lossOutsideDomain role loss =>
      role.name ++ " must be a finite positive number, got " ++ shortestText loss
  | .unevenPairs weights losses =>
      s!"stakes and losses must have the same length ({weights} != {losses})"
  | .noPairs => "at least one stake/loss pair is required"
  | .negativeWeight => "stakes cannot be negative"
  | .noWeight => "total stake cannot be zero"
  | .lossNotPositive => "loss values must be greater than zero"
  | .blendOutsideRange factor =>
      "uniqueness factor must be in [0, 1], got " ++ shortestText factor
  | .workerTwice text category =>
      "worker " ++ text ++ " reported twice in " ++ (Category.perWorker category).name
  | .reputerTwice reputer => "reputer " ++ reputer.text ++ " submitted more than one bundle"
  | .negativeStake => "reputer stake cannot be negative"
  | .noStake => "total stake of participating reputers cannot be zero"
  | .missingLoss category =>
      "network bundle has no " ++ (Category.whole category).name ++ " loss"
  | .unpairedForecaster worker =>
      "forecaster " ++ worker.text ++ " has a one-in loss but no one-out loss"
  | .identity problem => problem.message
  | .unknownStake reputer topic =>
      "no stake for reputer " ++ reputer.text ++ s!" on topic {topic}"
  | .unknownRoster topic => s!"no worker roster for topic {topic}"
  | .scoreRecorded kind account topic block =>
      kind.name ++ " score already recorded for " ++ account ++
        s!" on topic {topic} at block {block}"
  | .unknownCategory text => Text.Quoted.quoted text ++ " is not a valid LossCategory"
  | .notWhole category => (Category.perWorker category).name ++ " is a per-worker category"
  | .notPerWorker category => (Category.whole category).name ++ " is not a per-worker category"
  | .config problem => problem.message
  | .overflow => "math range error"
  | .coefficientRefused coefficient => refusal coefficient
  | .outage _ message => message

/-- The kind and the message, as a round that was not scored is listed. -/
def reason (refusal : Float → String) (fault : Fault Float) : String :=
  fault.kind.name ++ ": " ++ fault.message refusal

theorem bind_eq_ok_iff {ε α β : Type} {first : Except ε α} {next : α → Except ε β} {b : β} :
    first >>= next = .ok b ↔ ∃ a, first = .ok a ∧ next a = .ok b := by
  cases first with
  | error => simp [bind, Except.bind]
  | ok a => simp [bind, Except.bind]

end Fault
end RoundScoring
