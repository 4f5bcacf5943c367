import RoundScoring.Fault
import RoundScoring.Ledger

/-!
The keeper through which a round reads and writes the ledger. Every call may fail, because of what is
in the ledger or because the keeper is out of order; a `transaction` that fails leaves the ledger as
it found it. An outage is no part of the ledger: what it has let through stays counted.
-/

namespace RoundScoring

inductive Call where
  | readStake
  | readCoefficient
  | readRoster
  | writeCoefficient
  | insertScore (kind : ScoreKind)
  | openTransaction
deriving DecidableEq

/-- One kind of call is let through `spared` more times, and raises an exception from then on, before
anything is read or written. -/
structure Outage where
  call : Call
  spared : Nat
  exception : ExceptionName
  message : String

def Outage.fault {R : Type} (outage : Outage) : Fault R := .outage outage.exception outage.message

structure Keeper (R : Type) [Scalar R] where
  ledger : Ledger R := {}
  outage : Option Outage := none

/-- What is done through a keeper: it returns a value or fails, and the keeper changes either way. -/
abbrev Keeping (R : Type) [Scalar R] (α : Type) : Type :=
  ExceptT (Fault R) (StateM (Keeper R)) α

namespace Keeper

variable {R : Type} [Scalar R]

def run {α : Type} (keeper : Keeper R) (work : Keeping R α) : Except (Fault R) α × Keeper R :=
  (ExceptT.run work).run keeper

def attempt (call : Call) : Keeping R Unit := ExceptT.mk fun keeper =>
  match keeper.outage with
  | none => (.ok (), keeper)
  | some outage =>
      if outage.call = call then
        match outage.spared with
        | 0 => (.error outage.fault, keeper)
        | spared + 1 => (.ok (), { keeper with outage := some { outage with spared } })
      else (.ok (), keeper)

def readLedger : Keeping R (Ledger R) := return (← get).ledger

def writeLedger (change : Ledger R → Ledger R) : Keeping R Unit :=
  modify fun keeper => { keeper with ledger := change keeper.ledger }

def setStake (topic : Int) (reputer : Address) (stake : R) : Keeping R Unit :=
  writeLedger fun ledger => { ledger with stakes := ledger.stakes.put (topic, reputer) stake }

def setRoster (topic : Int) (workers : OrderedSet Address) : Keeping R Unit :=
  writeLedger fun ledger => { ledger with rosters := ledger.rosters.put topic workers }

def readStake (topic : Int) (reputer : Address) : Keeping R R := do
  attempt .readStake
  match (← readLedger).stakes.get? (topic, reputer) with
  | some stake => return stake
  | none => throw (.unknownStake reputer topic)

def readCoefficient (topic : Int) (reputer : Address) : Keeping R R := do
  attempt .readCoefficient
  return (← readLedger).coefficient topic reputer

def readRoster (topic : Int) : Keeping R (OrderedSet Address) := do
  attempt .readRoster
  match (← readLedger).rosters.get? topic with
  | some roster => return roster
  | none => throw (.unknownRoster topic)

/-- The coefficient is looked at before the keeper is asked. -/
def writeCoefficient (topic : Int) (reputer : Address) (value : R) : Keeping R Unit := do
  if nonneg : 0 ≤ value then
    attempt .writeCoefficient
    writeLedger fun ledger =>
      { ledger with coefficients := ledger.coefficients.put (topic, reputer) ⟨value, nonneg⟩ }
  else throw (.coefficientRefused value)

/-- A score is inserted once, and never replaced. -/
def insertScore (kind : ScoreKind) (topic block : Int) (score : Score R) : Keeping R Unit := do
  attempt (.insertScore kind)
  let table := (← readLedger).scores kind
  let key : ScoreKey := ⟨topic, block, score.account⟩
  if key ∈ table.keys then throw (.scoreRecorded kind score.account topic block)
  else writeLedger fun ledger => ledger.withScores kind (table.put key score)

def undoing {α : Type} (body : Keeping R α) : Keeping R α := ExceptT.mk fun keeper =>
  match keeper.run body with
  | (.ok a, after) => (.ok a, after)
  | (.error fault, after) => (.error fault, { after with ledger := keeper.ledger })

/-- All of what is done, or nothing. -/
def transaction {α : Type} (body : Keeping R α) : Keeping R α := do
  attempt .openTransaction
  undoing body

end Keeper
end RoundScoring
