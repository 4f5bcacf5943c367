/-!
What a loss was computed for. Two categories hold one loss of the whole network, three hold one loss
for each worker. The order is that of their declaration, the whole ones first.
-/

namespace RoundScoring

inductive WholeCategory where
  | combined
  | naive
deriving DecidableEq

inductive WorkerCategory where
  | oneOutInferer
  | oneOutForecaster
  | oneInForecaster
deriving DecidableEq

inductive Category where
  | whole (category : WholeCategory)
  | perWorker (category : WorkerCategory)
deriving DecidableEq

namespace Category

def wholes : List WholeCategory := [.combined, .naive]

def perWorkers : List WorkerCategory := [.oneOutInferer, .oneOutForecaster, .oneInForecaster]

def all : List Category := wholes.map .whole ++ perWorkers.map .perWorker

def name : Category → String
  | .whole .combined => "combined"
  | .whole .naive => "naive"
  | .perWorker .oneOutInferer => "one_out_inferer"
  | .perWorker .oneOutForecaster => "one_out_forecaster"
  | .perWorker .oneInForecaster => "one_in_forecaster"

def ofName? (text : String) : Option Category := all.find? (·.name = text)

def isPerWorker : Category → Bool
  | .whole _ => false
  | .perWorker _ => true

def rank : Category → Nat
  | .whole .combined => 0
  | .whole .naive => 1
  | .perWorker .oneOutInferer => 2
  | .perWorker .oneOutForecaster => 3
  | .perWorker .oneInForecaster => 4

instance : Ord Category where
  compare := compareOn rank

theorem compare_def (c d : Category) : compare c d = compare c.rank d.rank := rfl

theorem mem_all (c : Category) : c ∈ all := by
  rcases c with (_ | _) | (_ | _ | _) <;> decide

theorem rank_injective {c d : Category} (same : c.rank = d.rank) : c = d := by
  rcases c with (_ | _) | (_ | _ | _) <;> rcases d with (_ | _) | (_ | _ | _) <;>
    first | rfl | exact absurd same (by decide)

@[simp] theorem ofName?_name (c : Category) : ofName? c.name = some c := by
  rcases c with (_ | _) | (_ | _ | _) <;> decide

instance : Std.TransOrd Category :=
  inferInstanceAs (Std.TransCmp (compareOn rank))

instance : Std.LawfulEqOrd Category where
  compare_self {c} := by simp
  eq_of_compare same := rank_injective (Std.LawfulEqOrd.eq_of_compare same)

end Category
end RoundScoring
