import RoundScoring.Round.Reputers
import RoundScoring.Round.Workers

/-!
Whole rounds. A round is scored in one transaction: reputers first, then workers from the losses of
the network, which are the reputers' own consensus where none are given. A round that fails leaves
the ledger as it was, and is listed as unscored with its fault until it succeeds.
-/

namespace RoundScoring

structure RoundScores (R : Type) where
  topic : Int
  block : Int
  reputers : List (Score R)
  inferences : List (Score R)
  forecasts : List (Score R)
  consensus : Consensus R
  network : Bundle R

def RoundScores.total {R : Type} (round : RoundScores R) : Nat :=
  round.reputers.length + round.inferences.length + round.forecasts.length

variable {R : Type} [Scalar R]

/-- Only a network bundle that is given must be complete. -/
def Round.score (policy : Policy R) (topic block : Int) (submissions : List (Round.Submission R))
    (given : Option (Bundle R)) : Keeping R (RoundScores R) := do
  let ⟨reputers, consensus⟩ ← Round.scoreReputers policy topic block submissions
  let network ← match given with
    | some network => pure network
    | none => consensus.toBundle topic
  let inferences ← Round.scoreInferers policy topic block given.isSome network
  let forecasts ← Round.scoreForecasters policy topic block given.isSome network
  return { topic, block, reputers, inferences, forecasts, consensus, network }

structure Engine (R : Type) [Scalar R] where
  keeper : Keeper R := {}
  policy : Policy R
  unscored : Table (Int × Int) (Fault R) := .empty

namespace Engine

def scoreRound (topic block : Int) (submissions : List (Round.Submission R))
    (given : Option (Bundle R)) (engine : Engine R) :
    Except (Fault R) (RoundScores R) × Engine R :=
  let work := Keeper.transaction (Round.score engine.policy topic block submissions given)
  match engine.keeper.run work with
  | (.ok scores, keeper) =>
      (.ok scores, { engine with keeper, unscored := engine.unscored.erase (topic, block) })
  | (.error fault, keeper) =>
      (.error fault, { engine with keeper, unscored := engine.unscored.put (topic, block) fault })

def keep {α : Type} (work : Keeping R α) (engine : Engine R) : Except (Fault R) α × Engine R :=
  let (outcome, keeper) := engine.keeper.run work
  (outcome, { engine with keeper })

end Engine
end RoundScoring
