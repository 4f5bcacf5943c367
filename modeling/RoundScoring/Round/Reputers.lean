import RoundScoring.Consensus.Result
import RoundScoring.Keeper

/-!
The reputers' part of a round: every bundle is filtered and all of them are brought to a consensus,
then coefficients and scores are written in one transaction. Reading comes first in full, so a round
that cannot be computed has written nothing.
-/

namespace RoundScoring.Round

structure Submission (R : Type) where
  reputer : String
  bundle : Bundle R

variable {R : Type}

def readAccount (required : Option String) (text : String) : Except (Fault R) Address :=
  (Address.parse required text).mapError .identity

def refuseRepeated : (seen : List Address) → List Address → Except (Fault R) Unit
  | _, [] => .ok ()
  | seen, reputer :: rest =>
      if reputer ∈ seen then .error (.reputerTwice reputer)
      else refuseRepeated (reputer :: seen) rest

/-- The reputers of a round, each with its bundle. All are read before any is refused. -/
def readReputers (required : Option String) (submissions : List (Submission R)) :
    Except (Fault R) (List (Address × Bundle R)) := do
  let read ← submissions.mapM fun submission =>
    return (← readAccount required submission.reputer, submission.bundle)
  refuseRepeated [] (read.map Prod.fst)
  return read

variable [Scalar R]

def readReport (policy : Policy R) (topic : Int) (roster : OrderedSet Address)
    (reputer : Address) (bundle : Bundle R) : Keeping R (Consensus.Report R) := do
  let stake ← Keeper.readStake topic reputer
  let coefficient ← Keeper.readCoefficient topic reputer
  let coverage ← Coverage.filter policy.required roster reputer bundle
  return { coverage, stake, coefficient }

/-- The consensus of a round; nothing is written. -/
def consensus (policy : Policy R) (topic : Int) (submissions : List (Submission R)) :
    Keeping R (Consensus R) := do
  let reputers ← readReputers policy.required submissions
  let roster ← Keeper.readRoster topic
  let reports ← reputers.mapM fun (reputer, bundle) => readReport policy topic roster reputer bundle
  Consensus.aggregate policy.consensus reports

structure ReputerScores (R : Type) where
  scores : List (Score R)
  consensus : Consensus R

def reputerScores (topic block : Int) (consensus : Consensus R) : List (Score R) :=
  consensus.scores.entries.map fun (reputer, score) => ⟨topic, block, reputer.text, score⟩

/-- Every participant gets its new coefficient and one score. -/
def scoreReputers (policy : Policy R) (topic block : Int) (submissions : List (Submission R)) :
    Keeping R (ReputerScores R) := do
  let consensus ← consensus policy topic submissions
  let scores := reputerScores topic block consensus
  Keeper.transaction do
    consensus.coefficients.entries.forM fun (reputer, coefficient) =>
      Keeper.writeCoefficient topic reputer coefficient
    scores.forM (Keeper.insertScore .reputer topic block)
  return { scores, consensus }

end RoundScoring.Round
