import RoundScoring.Address
import RoundScoring.Loss.Category

/-!
Under what a loss is reported: a category, and a worker where the loss is one worker's. Keys are
ordered by their places, which list a key's parts one by one; so they are ordered by category, the key
without a worker first, and then as their workers are (`LossKey.compare_def`).
-/

namespace RoundScoring

structure LossKey where
  category : Category
  worker : Option Address
deriving DecidableEq

namespace LossKey

def whole (category : WholeCategory) : LossKey := ⟨.whole category, none⟩

def perWorker (category : WorkerCategory) (worker : Address) : LossKey :=
  ⟨.perWorker category, some worker⟩

/-- What a key is ordered by: its category, whether it names a worker, and the parts of the account
that it names. -/
structure Place where
  rank : Nat
  named : Bool
  hrp : String
  payload : List UInt8
deriving DecidableEq

namespace Place

instance : Ord Place where
  compare := compareLex (compareOn rank)
    (compareLex (compareOn named) (compareLex (compareOn hrp) (compareOn payload)))

theorem compare_def (p q : Place) :
    compare p q = (compare p.rank q.rank).then ((compare p.named q.named).then
      ((compare p.hrp q.hrp).then (compare p.payload q.payload))) := rfl

instance : Std.TransOrd Place :=
  inferInstanceAs (Std.TransCmp (compareLex (compareOn rank)
    (compareLex (compareOn named) (compareLex (compareOn hrp) (compareOn payload)))))

instance : Std.LawfulEqOrd Place where
  compare_self {p} := by simp
  eq_of_compare {p q} same := by
    simp only [compare_def, Ordering.then_eq_eq, Std.compare_eq_iff_eq] at same
    cases p
    cases q
    simp_all

end Place

/-- A key without a worker has an empty account in its place. -/
def place (key : LossKey) : Place :=
  match key.worker with
  | none => ⟨key.category.rank, false, "", []⟩
  | some worker => ⟨key.category.rank, true, worker.hrp, worker.payload⟩

instance : Ord LossKey where
  compare := compareOn place

theorem compare_eq_place (a b : LossKey) : compare a b = compare a.place b.place := rfl

theorem place_injective {a b : LossKey} (same : a.place = b.place) : a = b := by
  obtain ⟨category, worker⟩ := a
  obtain ⟨category', worker'⟩ := b
  have categories : category = category' := by
    refine Category.rank_injective ?_
    cases worker <;> cases worker' <;> exact congrArg Place.rank same
  subst categories
  cases worker with
  | none =>
    cases worker' with
    | none => rfl
    | some => cases congrArg Place.named same
  | some worker =>
    cases worker' with
    | none => cases congrArg Place.named same
    | some worker' =>
      have hrps : worker.hrp = worker'.hrp := congrArg Place.hrp same
      have payloads : worker.payload = worker'.payload := congrArg Place.payload same
      cases worker
      cases worker'
      simp_all

theorem compare_def (a b : LossKey) :
    compare a b = (compare a.category b.category).then (compare a.worker b.worker) := by
  obtain ⟨category, _ | worker⟩ := a <;> obtain ⟨category', _ | worker'⟩ := b <;>
    rw [compare_eq_place, Place.compare_def, Category.compare_def]
  all_goals rfl

instance : Std.TransOrd LossKey :=
  inferInstanceAs (Std.TransCmp (compareOn place))

instance : Std.LawfulEqOrd LossKey where
  compare_self {a} := by simp
  eq_of_compare {a b} same := place_injective (Std.LawfulEqOrd.eq_of_compare same)

@[simp] theorem compare_perWorker (c : WorkerCategory) (v w : Address) :
    compare (perWorker c v) (perWorker c w) = compare v w := by
  rw [compare_def, show compare (perWorker c v).category (perWorker c w).category = .eq from
    Std.ReflCmp.compare_self]
  rfl

end LossKey
end RoundScoring
