import RoundScoring.Loss.Bundle
import RoundScoring.OrderedSet

/-!
Which of a reputer's losses count. A whole category counts when its loss is there and has a
logarithm. A category of workers counts only as a whole: every worker on the roster must have a loss
with a logarithm, so that no reputer can pick the workers it reports on. Entries off the roster are
read, and then left out.
-/

namespace RoundScoring

structure Coverage (R : Type) where
  reputer : Address
  eligible : OrderedSet Category
  excluded : OrderedSet Category
  losses : Table LossKey R

namespace Coverage

open Scalar

variable {R : Type}

def hasEligible (coverage : Coverage R) : Bool := !coverage.eligible.isEmpty

def lossesFor (coverage : Coverage R) (category : Category) : List (LossKey × R) :=
  coverage.losses.entries.filter (·.1.category = category)

/-- What counts of each category, put together; a category without losses is excluded. -/
def ofParts (reputer : Address) (parts : List (Category × Option (List (LossKey × R)))) :
    Coverage R where
  reputer := reputer
  eligible := .ofList ((parts.filter (·.2.isSome)).map Prod.fst)
  excluded := .ofList ((parts.filter (·.2.isNone)).map Prod.fst)
  losses := .ofList (parts.flatMap fun part => part.2.getD [])

theorem mem_eligible_ofParts {reputer : Address} {category : Category}
    {parts : List (Category × Option (List (LossKey × R)))} :
    category ∈ (ofParts reputer parts).eligible ↔ ∃ losses, (category, some losses) ∈ parts := by
  simp only [ofParts, OrderedSet.mem_ofList, List.mem_map, List.mem_filter]
  constructor
  · rintro ⟨⟨found, losses⟩, ⟨inside, counted⟩, rfl⟩
    obtain ⟨losses, rfl⟩ := Option.isSome_iff_exists.mp counted
    exact ⟨losses, inside⟩
  · rintro ⟨losses, inside⟩
    exact ⟨_, ⟨inside, rfl⟩, rfl⟩

theorem mem_excluded_ofParts {reputer : Address} {category : Category}
    {parts : List (Category × Option (List (LossKey × R)))} :
    category ∈ (ofParts reputer parts).excluded ↔ (category, none) ∈ parts := by
  simp only [ofParts, OrderedSet.mem_ofList, List.mem_map, List.mem_filter]
  constructor
  · rintro ⟨⟨found, losses⟩, ⟨inside, absent⟩, rfl⟩
    cases Option.isNone_iff_eq_none.mp absent
    exact inside
  · intro inside
    exact ⟨_, ⟨inside, rfl⟩, rfl⟩

variable [Scalar R]

def wholeLosses (bundle : Bundle R) (category : WholeCategory) : Option (List (LossKey × R)) :=
  match bundle.whole category with
  | some loss => if IsLoss loss then some [(.whole category, loss)] else none
  | none => none

def workerLoss (category : WorkerCategory) (reported : Table Address R) (worker : Address) :
    Option (LossKey × R) :=
  match reported.get? worker with
  | some loss => if IsLoss loss then some (.perWorker category worker, loss) else none
  | none => none

/-- All of the roster's losses in the order of the workers, or none of them. -/
def workerLosses (roster : OrderedSet Address) (category : WorkerCategory)
    (reported : Table Address R) : Option (List (LossKey × R)) :=
  if roster.isEmpty then none else roster.toList.mapM (workerLoss category reported)

/-- All entries are read before any category is judged. -/
def filter (required : Option String) (roster : OrderedSet Address) (reputer : Address)
    (bundle : Bundle R) : Except (Fault R) (Coverage R) := do
  let reported ← Category.perWorkers.mapM fun category =>
    return (category, ← bundle.valuesFor required category)
  return ofParts reputer
    (Category.wholes.map (fun category => (.whole category, wholeLosses bundle category)) ++
      reported.map fun (category, values) =>
        (.perWorker category, workerLosses roster category values))

/-- The bundles of a round in turn; the first that cannot be read ends it. -/
def filterAll (required : Option String) (roster : OrderedSet Address)
    (bundles : List (Address × Bundle R)) : Except (Fault R) (List (Coverage R)) :=
  bundles.mapM fun (reputer, bundle) => filter required roster reputer bundle

@[simp] theorem workerLosses_empty (category : WorkerCategory) (reported : Table Address R) :
    workerLosses .empty category reported = none := rfl

end Coverage
end RoundScoring
