import Mathlib.Data.List.Sort
import RoundScoring.Proofs.Covering.Offences

/-!
What counts of a bundle, told without the passes by which it is found. A category is eligible by what
the bundle reports of it, and the losses are those reported under its keys, in the order of the keys
(`Coverage.Covers`). Main statement: a bundle in which no entry offends is filtered into the one
coverage that is told so, and any other is refused with its first offence
(`Coverage.filter_meets_definition`).
-/

namespace RoundScoring

variable {R : Type}

def Bundle.ReportsOf (required : Option String) (bundle : Bundle R) (category : WorkerCategory)
    (worker : Address) (loss : R) : Prop :=
  ∃ entry ∈ bundle.entries category,
    Address.parse required entry.worker = .ok worker ∧ entry.loss = loss

/-- A loss that is reported under a key: of the whole network, or of a worker on the roster. -/
inductive Bundle.ReportsUnder (required : Option String) (roster : OrderedSet Address)
    (bundle : Bundle R) : LossKey → R → Prop
  | whole {category : WholeCategory} {loss : R} (present : bundle.whole category = some loss) :
      ReportsUnder required roster bundle (.whole category) loss
  | perWorker {category : WorkerCategory} {worker : Address} {loss : R} (listed : worker ∈ roster)
      (reported : bundle.ReportsOf required category worker loss) :
      ReportsUnder required roster bundle (.perWorker category worker) loss

theorem Bundle.reportsOf_iff_of_valuesFor {required : Option String} {bundle : Bundle R}
    {category : WorkerCategory} {values : Table Address R}
    (read : bundle.valuesFor required category = .ok values) {worker : Address} {loss : R} :
    bundle.ReportsOf required category worker loss ↔ values.get? worker = some loss := by
  have each := valuesFor_eq_ok_iff.mp read
  constructor
  · rintro ⟨entry, listed, parsed, rfl⟩
    obtain ⟨⟨found, value⟩, member, same, rfl⟩ := exists_right_of_forall₂ each listed
    cases parsed.symm.trans same
    exact Table.get?_of_mem_entries member
  · intro known
    obtain ⟨entry, listed, parsed, same⟩ :=
      exists_left_of_forall₂ each (Table.mem_entries_of_get? known)
    exact ⟨entry, listed, parsed, same.symm⟩

namespace LossKey

theorem compare_eq_lt_of_category {a b : LossKey} (before : compare a.category b.category = .lt) :
    compare a b = .lt := by
  rw [compare_def, before]
  rfl

theorem pairwise_within (roster : OrderedSet Address) (category : Category) :
    (within roster category).Pairwise fun a b => compare a b = .lt := by
  cases category with
  | whole category => exact List.pairwise_singleton _ _
  | perWorker category =>
    refine List.pairwise_map.mpr (roster.ascending.imp fun before => ?_)
    rw [compare_perWorker]
    exact before

end LossKey

namespace Coverage

variable [Scalar R] {required : Option String} {roster : OrderedSet Address} {reputer : Address}
  {bundle : Bundle R}

/-- What a reputer is covered for, by what its bundle reports. -/
structure Covers (required : Option String) (roster : OrderedSet Address) (reputer : Address)
    (bundle : Bundle R) (coverage : Coverage R) : Prop where
  reputer : coverage.reputer = reputer
  partition : ∀ category, category ∈ coverage.excluded ↔ category ∉ coverage.eligible
  whole : ∀ category, .whole category ∈ coverage.eligible ↔
    ∃ loss, bundle.whole category = some loss ∧ Scalar.IsLoss loss
  perWorker : ∀ category, .perWorker category ∈ coverage.eligible ↔
    (∃ worker, worker ∈ roster) ∧
      ∀ worker ∈ roster, ∃ loss, bundle.ReportsOf required category worker loss ∧ Scalar.IsLoss loss
  losses : ∀ key loss, (key, loss) ∈ coverage.losses.entries ↔
    key.category ∈ coverage.eligible ∧ bundle.ReportsUnder required roster key loss
  ascending : coverage.losses.entries.Pairwise fun a b => compare a.1 b.1 = .lt
  filled : coverage.hasEligible = true ↔ coverage.losses.entries ≠ []

/-- What is covered is determined: the categories by what is reported, the losses as the one
ascending list of those under their keys. -/
theorem Covers.unique {coverage other : Coverage R}
    (covers : Covers required roster reputer bundle coverage)
    (otherCovers : Covers required roster reputer bundle other) : coverage = other := by
  have eligible : coverage.eligible = other.eligible := by
    refine OrderedSet.ext fun category => ?_
    cases category with
    | whole category => rw [covers.whole, otherCovers.whole]
    | perWorker category => rw [covers.perWorker, otherCovers.perWorker]
  have excluded : coverage.excluded = other.excluded := by
    refine OrderedSet.ext fun category => ?_
    rw [covers.partition, otherCovers.partition, eligible]
  have losses : coverage.losses = other.losses := by
    have irreflexive : Std.Irrefl fun a b : LossKey × R => compare a.1 b.1 = .lt :=
      ⟨fun a before => by simp at before⟩
    have antisymmetric : Std.Antisymm fun a b : LossKey × R => compare a.1 b.1 = .lt :=
      ⟨fun a b before after => (irreflexive.irrefl a (Std.TransCmp.lt_trans before after)).elim⟩
    refine Table.ext (covers.ascending.eq_of_mem_iff otherCovers.ascending fun entry => ?_)
    rw [covers.losses, otherCovers.losses, eligible]
  have reputer := covers.reputer.trans otherCovers.reputer.symm
  cases coverage
  cases other
  simp_all

theorem wholeLosses_eq_some_iff {category : WholeCategory} {losses : List (LossKey × R)} :
    wholeLosses bundle category = some losses ↔
      ∃ loss, bundle.whole category = some loss ∧ Scalar.IsLoss loss ∧
        losses = [(.whole category, loss)] := by
  unfold wholeLosses
  constructor
  · intro found
    split at found
    next loss present =>
      split at found
      next proper =>
        cases found
        exact ⟨loss, present, proper, rfl⟩
      next => cases found
    next => cases found
  · rintro ⟨loss, present, proper, rfl⟩
    rw [present]
    exact if_pos proper

theorem workerLoss_eq_some_iff {category : WorkerCategory} {reported : Table Address R}
    {worker : Address} {entry : LossKey × R} :
    workerLoss category reported worker = some entry ↔
      entry.1 = .perWorker category worker ∧ Scalar.IsLoss entry.2 ∧
        reported.get? worker = some entry.2 := by
  refine ⟨workerLoss_eq_some, ?_⟩
  obtain ⟨key, loss⟩ := entry
  rintro ⟨rfl, proper, known⟩
  unfold workerLoss
  rw [known]
  exact if_pos proper

theorem exists_workerLosses_iff {category : WorkerCategory} {reported : Table Address R} :
    (∃ losses, workerLosses roster category reported = some losses) ↔
      (∃ worker, worker ∈ roster) ∧
        ∀ worker ∈ roster, ∃ loss, reported.get? worker = some loss ∧ Scalar.IsLoss loss := by
  unfold workerLosses
  split
  next nobody =>
    constructor
    · rintro ⟨losses, found⟩
      cases found
    · rintro ⟨⟨worker, listed⟩, -⟩
      rw [OrderedSet.mem_def, List.isEmpty_iff.mp nobody] at listed
      cases listed
  next somebody =>
    rw [exists_mapM_eq_some_iff]
    constructor
    · intro each
      refine ⟨List.exists_mem_of_ne_nil _ fun nobody => somebody (List.isEmpty_iff.mpr nobody),
        fun worker listed => ?_⟩
      obtain ⟨entry, found⟩ := each worker listed
      obtain ⟨-, proper, known⟩ := workerLoss_eq_some_iff.mp found
      exact ⟨entry.2, known, proper⟩
    · rintro ⟨-, each⟩ worker listed
      obtain ⟨loss, known, proper⟩ := each worker listed
      exact ⟨(.perWorker category worker, loss), workerLoss_eq_some_iff.mpr ⟨rfl, proper, known⟩⟩

theorem mem_workerLosses_iff {category : WorkerCategory} {reported : Table Address R}
    {losses : List (LossKey × R)} (found : workerLosses roster category reported = some losses)
    {key : LossKey} {loss : R} :
    (key, loss) ∈ losses ↔
      ∃ worker ∈ roster, key = .perWorker category worker ∧ reported.get? worker = some loss := by
  unfold workerLosses at found
  split at found
  next => cases found
  next =>
    have each := mapM_eq_some_iff.mp found
    constructor
    · intro inside
      obtain ⟨worker, listed, head⟩ := exists_left_of_forall₂ each inside
      obtain ⟨named, -, known⟩ := workerLoss_eq_some_iff.mp head
      exact ⟨worker, listed, named, known⟩
    · rintro ⟨worker, listed, rfl, known⟩
      obtain ⟨⟨key, value⟩, inside, head⟩ := exists_right_of_forall₂ each listed
      obtain ⟨named, -, same⟩ := workerLoss_eq_some_iff.mp head
      cases named
      cases known.symm.trans same
      exact inside

theorem pairwise_flatMap_partsOf {values : WorkerCategory → Table Address R}
    (read : ∀ category, bundle.valuesFor required category = .ok (values category)) :
    ((partsOf roster bundle values).flatMap fun part => part.2.getD []).Pairwise
      fun a b => compare a.1 b.1 = .lt := by
  rw [List.pairwise_flatMap]
  constructor
  · rintro ⟨category, _ | losses⟩ part
    · exact .nil
    · have ascending := LossKey.pairwise_within roster category
      rw [← (counted_of_mem_partsOf read part).keys] at ascending
      exact List.pairwise_map.mp ascending
  · have categories : ((partsOf roster bundle values).map Prod.fst).Pairwise
        fun a b => compare a b = .lt := by
      change Category.all.Pairwise _
      decide
    refine (List.pairwise_map.mp categories).imp_of_mem ?_
    rintro ⟨first, _ | losses⟩ ⟨second, _ | others⟩ part other before a inside b outside
    · cases inside
    · cases inside
    · cases outside
    · refine LossKey.compare_eq_lt_of_category ?_
      have left := (counted_of_mem_partsOf read part).keys ▸ List.mem_map_of_mem inside
      have right := (counted_of_mem_partsOf read other).keys ▸ List.mem_map_of_mem outside
      rw [LossKey.category_of_within left, LossKey.category_of_within right]
      exact before

theorem entries_ofParts_partsOf {values : WorkerCategory → Table Address R}
    (read : ∀ category, bundle.valuesFor required category = .ok (values category)) :
    (ofParts reputer (partsOf roster bundle values)).losses.entries =
      (partsOf roster bundle values).flatMap fun part => part.2.getD [] := by
  refine Table.entries_ofList (List.pairwise_map.mpr ?_)
  refine (pairwise_flatMap_partsOf read).imp fun before same => ?_
  rw [same] at before
  simp at before

section Parts

variable {values : WorkerCategory → Table Address R}

theorem whole_mem_eligible_iff {category : WholeCategory} :
    .whole category ∈ (ofParts reputer (partsOf roster bundle values)).eligible ↔
      ∃ loss, bundle.whole category = some loss ∧ Scalar.IsLoss loss := by
  rw [mem_eligible_ofParts]
  constructor
  · rintro ⟨losses, part⟩
    obtain ⟨loss, present, proper, -⟩ := wholeLosses_eq_some_iff.mp (whole_mem_partsOf.mp part).symm
    exact ⟨loss, present, proper⟩
  · rintro ⟨loss, present, proper⟩
    exact ⟨_, whole_mem_partsOf.mpr (wholeLosses_eq_some_iff.mpr ⟨loss, present, proper, rfl⟩).symm⟩

theorem perWorker_mem_eligible_iff
    (read : ∀ category, bundle.valuesFor required category = .ok (values category))
    {category : WorkerCategory} :
    .perWorker category ∈ (ofParts reputer (partsOf roster bundle values)).eligible ↔
      (∃ worker, worker ∈ roster) ∧ ∀ worker ∈ roster,
        ∃ loss, bundle.ReportsOf required category worker loss ∧ Scalar.IsLoss loss := by
  simp only [mem_eligible_ofParts, perWorker_mem_partsOf,
    Bundle.reportsOf_iff_of_valuesFor (read category), eq_comm (a := some _)]
  exact exists_workerLosses_iff

theorem mem_excluded_iff {category : Category} :
    category ∈ (ofParts reputer (partsOf roster bundle values)).excluded ↔
      category ∉ (ofParts reputer (partsOf roster bundle values)).eligible := by
  rw [mem_excluded_ofParts, mem_eligible_ofParts]
  cases category with
  | whole category =>
    simp only [whole_mem_partsOf]
    cases wholeLosses bundle category <;> simp
  | perWorker category =>
    simp only [perWorker_mem_partsOf]
    cases workerLosses roster category (values category) <;> simp

theorem mem_losses_iff
    (read : ∀ category, bundle.valuesFor required category = .ok (values category))
    {key : LossKey} {loss : R} :
    (key, loss) ∈ (ofParts reputer (partsOf roster bundle values)).losses.entries ↔
      key.category ∈ (ofParts reputer (partsOf roster bundle values)).eligible ∧
        bundle.ReportsUnder required roster key loss := by
  rw [entries_ofParts_partsOf read, mem_eligible_ofParts, List.mem_flatMap]
  constructor
  · rintro ⟨⟨category, _ | losses⟩, part, inside⟩
    · cases inside
    · cases category with
      | whole category =>
        obtain ⟨_, present, -, rfl⟩ := wholeLosses_eq_some_iff.mp (whole_mem_partsOf.mp part).symm
        cases List.mem_singleton.mp inside
        exact ⟨⟨_, part⟩, .whole present⟩
      | perWorker category =>
        obtain ⟨worker, listed, rfl, known⟩ :=
          (mem_workerLosses_iff (perWorker_mem_partsOf.mp part).symm).mp inside
        exact ⟨⟨_, part⟩, .perWorker listed
          ((Bundle.reportsOf_iff_of_valuesFor (read category)).mpr known)⟩
  · rintro ⟨⟨losses, part⟩, reported⟩
    refine ⟨_, part, ?_⟩
    cases reported with
    | whole present =>
      obtain ⟨_, same, -, rfl⟩ := wholeLosses_eq_some_iff.mp (whole_mem_partsOf.mp part).symm
      cases present.symm.trans same
      exact List.mem_singleton_self _
    | perWorker listed reported =>
      exact (mem_workerLosses_iff (perWorker_mem_partsOf.mp part).symm).mpr
        ⟨_, listed, rfl, (Bundle.reportsOf_iff_of_valuesFor (read _)).mp reported⟩

end Parts

theorem covers_of_filter {coverage : Coverage R}
    (filtered : filter required roster reputer bundle = .ok coverage) :
    Covers required roster reputer bundle coverage := by
  have filled := losses_ne_nil_of_filter filtered
  obtain ⟨values, read, rfl⟩ := filter_eq_ok_iff.mp filtered
  refine {
    reputer := rfl
    partition := fun category => mem_excluded_iff
    whole := fun category => whole_mem_eligible_iff
    perWorker := fun category => perWorker_mem_eligible_iff read
    losses := fun key loss => mem_losses_iff read
    ascending := entries_ofParts_partsOf read ▸ pairwise_flatMap_partsOf read
    filled := ⟨filled, fun found => ?_⟩ }
  obtain ⟨⟨key, loss⟩, inside⟩ := List.exists_mem_of_ne_nil _ found
  obtain ⟨eligible, -⟩ := (mem_losses_iff read).mp inside
  rw [hasEligible, Bool.not_eq_true', OrderedSet.isEmpty, List.isEmpty_eq_false_iff]
  exact List.ne_nil_of_mem eligible

/-- Every bundle is either filtered into the one coverage that its reports come to, which is when no
entry of it offends, or refused with the fault of its first offence. -/
theorem filter_meets_definition (required : Option String) (roster : OrderedSet Address)
    (reputer : Address) (bundle : Bundle R) :
    (bundle.Sound required ↔ ∃ coverage, filter required roster reputer bundle = .ok coverage ∧
      ∀ other, Covers required roster reputer bundle other ↔ other = coverage) ∧
    ∀ fault, filter required roster reputer bundle = .error fault ↔
      bundle.FirstOffence required fault := by
  refine ⟨?_, fun fault => filter_eq_error_iff⟩
  constructor
  · intro sound
    obtain ⟨coverage, filtered⟩ := exists_filter_iff.mpr sound
    have covers := covers_of_filter filtered
    refine ⟨coverage, filtered, fun other => ⟨fun found => found.unique covers, ?_⟩⟩
    rintro rfl
    exact covers
  · rintro ⟨coverage, filtered, -⟩
    exact exists_filter_iff.mp ⟨coverage, filtered⟩

end Coverage
end RoundScoring
