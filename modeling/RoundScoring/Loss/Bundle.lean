import RoundScoring.Fault
import RoundScoring.Loss.Key
import RoundScoring.Table

/-!
The losses that one reputer, or the network, reports for a round. Losses of workers are a list of
entries whose workers are texts as they were sent; `valuesFor` reads the texts and refuses a worker
that comes twice, in whatever spelling.
-/

namespace RoundScoring

structure WorkerLoss (R : Type) where
  worker : String
  loss : R
deriving DecidableEq

structure Bundle (R : Type) where
  topic : Int
  combined : Option R
  naive : Option R
  oneOutInferer : List (WorkerLoss R)
  oneOutForecaster : List (WorkerLoss R)
  oneInForecaster : List (WorkerLoss R)
deriving DecidableEq

namespace Bundle

variable {R : Type}

def whole (bundle : Bundle R) : WholeCategory → Option R
  | .combined => bundle.combined
  | .naive => bundle.naive

def entries (bundle : Bundle R) : WorkerCategory → List (WorkerLoss R)
  | .oneOutInferer => bundle.oneOutInferer
  | .oneOutForecaster => bundle.oneOutForecaster
  | .oneInForecaster => bundle.oneInForecaster

def enter (required : Option String) (category : WorkerCategory) (seen : Table Address R)
    (entry : WorkerLoss R) : Except (Fault R) (Table Address R) :=
  match Address.parse required entry.worker with
  | .error problem => .error (.identity problem)
  | .ok worker =>
      if worker ∈ seen.keys then .error (.workerTwice entry.worker category)
      else .ok (seen.put worker entry.loss)

/-- The losses of a category by worker, in the order of the entries. -/
def valuesFor (required : Option String) (bundle : Bundle R) (category : WorkerCategory) :
    Except (Fault R) (Table Address R) :=
  (bundle.entries category).foldlM (enter required category) Table.empty

def whole? (bundle : Bundle R) : Category → Except (Fault R) (Option R)
  | .whole category => .ok (bundle.whole category)
  | .perWorker category => .error (.notWhole category)

def entries? (bundle : Bundle R) : Category → Except (Fault R) (List (WorkerLoss R))
  | .whole category => .error (.notPerWorker category)
  | .perWorker category => .ok (bundle.entries category)

def valuesFor? (required : Option String) (bundle : Bundle R) :
    Category → Except (Fault R) (Table Address R)
  | .whole category => .error (.notPerWorker category)
  | .perWorker category => bundle.valuesFor required category

theorem entries_of_enter {required : Option String} {category : WorkerCategory}
    {seen grown : Table Address R} {entry : WorkerLoss R}
    (entered : enter required category seen entry = .ok grown) :
    ∃ worker, Address.parse required entry.worker = .ok worker ∧ worker ∉ seen.keys ∧
      grown.entries = seen.entries ++ [(worker, entry.loss)] := by
  unfold enter at entered
  split at entered
  next => contradiction
  next worker parsed =>
    split at entered
    next => contradiction
    next absent =>
      cases entered
      exact ⟨worker, parsed, absent, Table.entries_put_of_absent absent⟩

end Bundle
end RoundScoring
