import RoundScoring.Address
import RoundScoring.Scalar

/-!
What a round leaves behind: a score of an account for a topic at a block, in one of three tables,
and the coefficient by which a reputer is listened to.
-/

namespace RoundScoring

inductive ScoreKind where
  | reputer
  | inference
  | forecast
deriving DecidableEq

namespace ScoreKind

def all : List ScoreKind := [.reputer, .inference, .forecast]

def name : ScoreKind → String
  | .reputer => "reputer"
  | .inference => "inference"
  | .forecast => "forecast"

end ScoreKind

structure Score (R : Type) where
  topic : Int
  block : Int
  account : String
  value : R
deriving DecidableEq

/-- A listening coefficient is not below zero; so it is a number, and may be infinite. -/
structure Coefficient (R : Type) [Scalar R] where
  value : R
  nonneg : 0 ≤ value

/-- How a reputer is listened to before its first round. -/
def neutralCoefficient {R : Type} [Scalar R] : R := 1

end RoundScoring
