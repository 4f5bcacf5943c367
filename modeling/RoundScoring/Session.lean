import RoundScoring.Round.Engine

/-!
Sessions: what is done to an engine, step by step, and what each step answers. A step that fails does
not end a session. Within a transaction it does end the transaction, which undoes the ledger and
fails in its turn, unless the step is one whose fault is caught (`ledger_run_transaction_of_fault`).
-/

namespace RoundScoring.Session

inductive Action (R : Type) [Scalar R] where
  | setStake (topic : Int) (reputer : String) (stake : R)
  | getStake (topic : Int) (reputer : String)
  | setWorkers (topic : Int) (workers : List String)
  | getWorkers (topic : Int)
  | setCoefficient (topic : Int) (reputer : String) (coefficient : R)
  | getCoefficient (topic : Int) (reputer : String)
  | insertScore (kind : ScoreKind) (topic block : Int) (score : Score R)
  | getScores (kind : ScoreKind) (topic block : Int)
  | computeConsensus (topic : Int) (submissions : List (Round.Submission R))
      (settings : Option (PolicySettings R))
  | scoreReputers (topic block : Int) (submissions : List (Round.Submission R))
      (settings : Option (PolicySettings R))
  | runReputers (topic block : Int) (submissions : List (Round.Submission R))
      (settings : Option (PolicySettings R))
  | scoreInferers (topic block : Int) (network : Bundle R) (strict : Bool)
      (settings : Option (PolicySettings R))
  | scoreForecasters (topic block : Int) (network : Bundle R) (strict : Bool)
      (settings : Option (PolicySettings R))
  | unscored
  | dump
  | failOn (call : Call) (spared : Nat) (message : String)
  | failOff
  | outage (message : String)

inductive Step (R : Type) [Scalar R] where
  | act (action : Action R) (caught : Bool)
  | round (topic block : Int) (submissions : List (Round.Submission R))
      (network : Option (Bundle R)) (caught : Bool)
  | transaction (steps : List (Step R)) (caught : Bool)

structure ConsensusLosses (R : Type) where
  consensus : Consensus R
  losses : List (LossKey × R)

inductive Reply (R : Type) [Scalar R] where
  | done
  | stake (stake : R)
  | coefficient (coefficient : R)
  | workers (workers : List Address)
  | scores (scores : List (Score R))
  | consensus (consensus : ConsensusLosses R)
  | reputers (scores : List (Score R)) (consensus : ConsensusLosses R)
  | round (scores : RoundScores R)
  | unscored (rounds : List ((Int × Int) × Fault R))
  | ledger (ledger : Ledger R)

/-- How many stakes, coefficients, rosters, scores of each kind and unscored rounds there are. -/
abbrev Sizes := List Nat

inductive Answer (R : Type) [Scalar R] where
  | reply (outcome : Except (Fault R) (Reply R)) (sizes : Sizes)
  | transaction (answers : List (Answer R)) (fault : Option (Fault R)) (sizes : Sizes)

variable {R : Type} [Scalar R]

def sizes (engine : Engine R) : Sizes :=
  let ledger := engine.keeper.ledger
  [ledger.stakes.size, ledger.coefficients.size, ledger.rosters.size] ++
    ScoreKind.all.map (fun kind => (ledger.scores kind).size) ++ [engine.unscored.size]

def withLosses (consensus : Consensus R) : Except (Fault R) (ConsensusLosses R) := do
  return { consensus, losses := ← consensus.losses }

def policyOf (engine : Engine R) : Option (PolicySettings R) → Except (Fault R) (Policy R)
  | none => .ok engine.policy
  | some settings => settings.accept.mapError .config

def unscoredRounds (engine : Engine R) : List ((Int × Int) × Fault R) :=
  engine.unscored.sorted (compareLex (compareOn Prod.fst) (compareOn Prod.snd))

def scripted : ExceptionName := ⟨"RuntimeError", runtimeError_not_interruption⟩

/-- An account that a step names may have any human readable part. -/
def account (text : String) : Keeping R Address :=
  liftM (Round.readAccount none text : Except (Fault R) Address)

def perform (engine : Engine R) : Action R → Keeping R (Reply R)
  | .setStake topic reputer stake => do
      Keeper.setStake topic (← account reputer) stake
      return .done
  | .getStake topic reputer => do
      return .stake (← Keeper.readStake topic (← account reputer))
  | .setWorkers topic workers => do
      Keeper.setRoster topic (.ofList (← workers.mapM account))
      return .done
  | .getWorkers topic => do
      return .workers (← Keeper.readRoster topic).toList
  | .setCoefficient topic reputer coefficient => do
      Keeper.writeCoefficient topic (← account reputer) coefficient
      return .done
  | .getCoefficient topic reputer => do
      return .coefficient (← Keeper.readCoefficient topic (← account reputer))
  | .insertScore kind topic block score => do
      Keeper.insertScore kind topic block score
      return .done
  | .getScores kind topic block => do
      return .scores ((← Keeper.readLedger).scoresAt kind topic block)
  | .computeConsensus topic submissions settings => do
      let consensus ← Round.consensus (← policyOf engine settings) topic submissions
      return .consensus (← withLosses consensus)
  | .scoreReputers topic block submissions settings => do
      return .scores
        (← Round.scoreReputers (← policyOf engine settings) topic block submissions).scores
  | .runReputers topic block submissions settings => do
      let scored ← Round.scoreReputers (← policyOf engine settings) topic block submissions
      return .reputers scored.scores (← withLosses scored.consensus)
  | .scoreInferers topic block network strict settings => do
      return .scores
        (← Round.scoreInferers (← policyOf engine settings) topic block strict network)
  | .scoreForecasters topic block network strict settings => do
      return .scores
        (← Round.scoreForecasters (← policyOf engine settings) topic block strict network)
  | .unscored => return .unscored (unscoredRounds engine)
  | .dump => return .ledger (← Keeper.readLedger)
  | .failOn call spared message => do
      modify fun keeper => { keeper with outage := some ⟨call, spared, scripted, message⟩ }
      return .done
  | .failOff => do
      modify fun keeper => { keeper with outage := none }
      return .done
  | .outage message => throw (.outage scripted message)

def Answer.fault? : Answer R → Option (Fault R)
  | .reply (.error fault) _ => some fault
  | .reply (.ok _) _ => none
  | .transaction _ fault _ => fault

def Step.caught : Step R → Bool
  | .act _ caught => caught
  | .round _ _ _ _ caught => caught
  | .transaction _ caught => caught

mutual

def run (engine : Engine R) : Step R → Answer R × Engine R
  | .act action _ =>
      let (outcome, after) := engine.keep (perform engine action)
      (.reply outcome (sizes after), after)
  | .round topic block submissions network _ =>
      let (outcome, after) := engine.scoreRound topic block submissions network
      (.reply (outcome.map .round) (sizes after), after)
  | .transaction steps _ =>
      let (answers, fault, after) := runUntilFault engine steps
      match fault with
      | none => (.transaction answers none (sizes after), after)
      | some fault =>
          let keeper := { after.keeper with ledger := engine.keeper.ledger }
          let undone := { after with keeper }
          (.transaction answers (some fault) (sizes undone), undone)

def runUntilFault (engine : Engine R) :
    List (Step R) → List (Answer R) × Option (Fault R) × Engine R
  | [] => ([], none, engine)
  | step :: rest =>
      let (answer, after) := run engine step
      match answer.fault? with
      | some fault =>
          if step.caught then
            let (answers, fault, last) := runUntilFault after rest
            (answer :: answers, fault, last)
          else ([answer], some fault, after)
      | none =>
          let (answers, fault, last) := runUntilFault after rest
          (answer :: answers, fault, last)

end

def runAll (engine : Engine R) : List (Step R) → List (Answer R)
  | [] => []
  | step :: rest =>
      let (answer, after) := run engine step
      answer :: runAll after rest

theorem ledger_run_transaction_of_fault {engine : Engine R} {steps : List (Step R)} {caught : Bool}
    {fault : Fault R} (unwound : (run engine (.transaction steps caught)).1.fault? = some fault) :
    (run engine (.transaction steps caught)).2.keeper.ledger = engine.keeper.ledger := by
  unfold run at unwound ⊢
  generalize runUntilFault engine steps = ran at unwound ⊢
  obtain ⟨answers, fault', after⟩ := ran
  cases fault' with
  | none => simp [Answer.fault?] at unwound
  | some => rfl

end RoundScoring.Session
