import RoundScoring.OrderedSet
import RoundScoring.Score
import RoundScoring.Table

/-!
The six tables that outlive a round: stakes, listening coefficients and rosters, and three tables of
scores. A score is kept under the topic and block it was inserted for and its own account, and is
never replaced.
-/

namespace RoundScoring

structure ScoreKey where
  topic : Int
  block : Int
  account : String
deriving DecidableEq

def topicOrder : Int × Address → Int × Address → Ordering :=
  compareLex (compareOn Prod.fst) (compareOn Prod.snd)

structure Ledger (R : Type) [Scalar R] where
  stakes : Table (Int × Address) R := .empty
  coefficients : Table (Int × Address) (Coefficient R) := .empty
  rosters : Table Int (OrderedSet Address) := .empty
  reputerScores : Table ScoreKey (Score R) := .empty
  inferenceScores : Table ScoreKey (Score R) := .empty
  forecastScores : Table ScoreKey (Score R) := .empty

namespace Ledger

variable {R : Type} [Scalar R]

def scores (ledger : Ledger R) : ScoreKind → Table ScoreKey (Score R)
  | .reputer => ledger.reputerScores
  | .inference => ledger.inferenceScores
  | .forecast => ledger.forecastScores

def withScores (ledger : Ledger R) (kind : ScoreKind) (table : Table ScoreKey (Score R)) :
    Ledger R :=
  match kind with
  | .reputer => { ledger with reputerScores := table }
  | .inference => { ledger with inferenceScores := table }
  | .forecast => { ledger with forecastScores := table }

def scoresAt (ledger : Ledger R) (kind : ScoreKind) (topic block : Int) : List (Score R) :=
  ((ledger.scores kind).entries.filter fun (key, _) => key.topic = topic ∧ key.block = block).map
    Prod.snd

/-- A reputer that has no coefficient yet is listened to neutrally. -/
def coefficient (ledger : Ledger R) (topic : Int) (reputer : Address) : R :=
  match ledger.coefficients.get? (topic, reputer) with
  | some coefficient => coefficient.value
  | none => neutralCoefficient

@[simp] theorem scores_withScores (ledger : Ledger R) (kind other : ScoreKind)
    (table : Table ScoreKey (Score R)) :
    (ledger.withScores kind table).scores other =
      if other = kind then table else ledger.scores other := by
  cases kind <;> cases other <;> rfl

@[simp] theorem stakes_withScores (ledger : Ledger R) (kind : ScoreKind)
    (table : Table ScoreKey (Score R)) : (ledger.withScores kind table).stakes = ledger.stakes := by
  cases kind <;> rfl

@[simp] theorem coefficients_withScores (ledger : Ledger R) (kind : ScoreKind)
    (table : Table ScoreKey (Score R)) :
    (ledger.withScores kind table).coefficients = ledger.coefficients := by
  cases kind <;> rfl

@[simp] theorem rosters_withScores (ledger : Ledger R) (kind : ScoreKind)
    (table : Table ScoreKey (Score R)) :
    (ledger.withScores kind table).rosters = ledger.rosters := by
  cases kind <;> rfl

end Ledger
end RoundScoring
