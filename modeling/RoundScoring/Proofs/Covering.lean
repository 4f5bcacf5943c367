import RoundScoring.Coverage
import RoundScoring.Proofs.Tables
import RoundScoring.Proofs.Traversal

/-!
What is read of a bundle, and what counts of it. Reading the entries of a category succeeds just when
their workers are accounts and no two of them the same (`Bundle.valuesFor_eq_ok_iff`). Each category
that counts has a loss under every key that the roster gives it, and under no other
(`Coverage.mem_keys_of_filter`), and all of these losses have a logarithm.
-/

namespace RoundScoring

variable {R : Type}

/-- An entry as it is sent, and the worker and loss that it is read as. -/
def ReadAs (required : Option String) (entry : WorkerLoss R) (pair : Address × R) : Prop :=
  Address.parse required entry.worker = .ok pair.1 ∧ pair.2 = entry.loss

theorem Bundle.foldlM_enter_eq_ok_iff {required : Option String} {category : WorkerCategory}
    {entries : List (WorkerLoss R)} {seen grown : Table Address R} :
    entries.foldlM (enter required category) seen = .ok grown ↔
      ∃ pairs, grown.entries = seen.entries ++ pairs ∧
        List.Forall₂ (ReadAs required) entries pairs := by
  induction entries generalizing seen with
  | nil =>
    rw [List.foldlM_nil]
    constructor
    · intro same
      cases same
      exact ⟨[], (List.append_nil _).symm, .nil⟩
    · rintro ⟨pairs, grows, each⟩
      cases each
      rw [List.append_nil] at grows
      rw [Table.ext grows]
      rfl
  | cons entry entries ih =>
    rw [List.foldlM_cons, Fault.bind_eq_ok_iff]
    constructor
    · rintro ⟨between, entered, rest⟩
      obtain ⟨worker, parsed, -, appended⟩ := entries_of_enter entered
      obtain ⟨pairs, grows, each⟩ := ih.mp rest
      refine ⟨(worker, entry.loss) :: pairs, ?_, .cons ⟨parsed, rfl⟩ each⟩
      rw [grows, appended, List.append_assoc, List.singleton_append]
    · rintro ⟨_, grows, each⟩
      obtain ⟨⟨worker, loss⟩, pairs, ⟨parsed, same⟩, later, rfl⟩ :=
        List.forall₂_cons_left_iff.mp each
      dsimp only at parsed same
      subst same
      have absent : worker ∉ seen.keys := by
        have distinct := grown.distinct
        rw [grows, List.map_append, List.nodup_append] at distinct
        exact fun inside => distinct.2.2 _ inside _ List.mem_cons_self rfl
      refine ⟨seen.put worker entry.loss, ?_, ih.mpr ⟨pairs, ?_, later⟩⟩
      · unfold enter
        rw [parsed]
        exact if_neg absent
      · rw [grows, Table.entries_put_of_absent absent, List.append_assoc, List.singleton_append]

theorem Bundle.valuesFor_eq_ok_iff {required : Option String} {bundle : Bundle R}
    {category : WorkerCategory} {values : Table Address R} :
    bundle.valuesFor required category = .ok values ↔
      List.Forall₂ (ReadAs required) (bundle.entries category) values.entries := by
  unfold valuesFor
  rw [foldlM_enter_eq_ok_iff]
  constructor
  · rintro ⟨pairs, grows, each⟩
    rw [grows]
    exact each
  · intro each
    exact ⟨values.entries, rfl, each⟩

theorem Bundle.parsed_of_valuesFor {required : Option String} {bundle : Bundle R}
    {category : WorkerCategory} {values : Table Address R}
    (read : bundle.valuesFor required category = .ok values) {worker : Address}
    (inside : worker ∈ values.keys) : ∃ text, Address.parse required text = .ok worker := by
  obtain ⟨pair, member, rfl⟩ := List.mem_map.mp inside
  obtain ⟨entry, -, parsed, -⟩ := exists_left_of_forall₂ (valuesFor_eq_ok_iff.mp read) member
  exact ⟨entry.worker, parsed⟩

def Bundle.Reports (bundle : Bundle R) (loss : R) : Prop :=
  (∃ category, bundle.whole category = some loss) ∨
    ∃ category, ∃ entry ∈ bundle.entries category, entry.loss = loss

/-- The keys of a category: one of its own, or one for each worker on the roster. -/
def LossKey.within (roster : OrderedSet Address) : Category → List LossKey
  | .whole category => [.whole category]
  | .perWorker category => roster.toList.map (.perWorker category)

theorem LossKey.category_of_within {roster : OrderedSet Address} {category : Category}
    {key : LossKey} (inside : key ∈ within roster category) : key.category = category := by
  cases category with
  | whole category =>
    rw [List.mem_singleton.mp inside]
    rfl
  | perWorker category =>
    obtain ⟨worker, -, rfl⟩ := List.mem_map.mp inside
    rfl

namespace Coverage

variable [Scalar R]

/-- What counts of one category: proper losses under all of its keys. -/
structure Counted (required : Option String) (roster : OrderedSet Address) (category : Category)
    (losses : List (LossKey × R)) : Prop where
  keys : losses.map Prod.fst = LossKey.within roster category
  proper : ∀ entry ∈ losses, Scalar.IsLoss entry.2
  filled : losses ≠ []
  accounts : ∀ key ∈ LossKey.within roster category, ∀ worker ∈ key.worker,
    ∃ text, Address.parse required text = .ok worker

theorem counted_wholeLosses {required : Option String} {roster : OrderedSet Address}
    {bundle : Bundle R} {category : WholeCategory} {losses : List (LossKey × R)}
    (found : wholeLosses bundle category = some losses) :
    Counted required roster (.whole category) losses := by
  unfold wholeLosses at found
  split at found
  next loss _ =>
    split at found
    next proper =>
      cases found
      refine ⟨rfl, ?_, List.cons_ne_nil _ _, ?_⟩
      · intro entry inside
        rw [List.mem_singleton.mp inside]
        exact proper
      · intro key inside worker named
        rw [List.mem_singleton.mp inside] at named
        cases named
    next => cases found
  next => cases found

theorem workerLoss_eq_some {category : WorkerCategory} {reported : Table Address R}
    {worker : Address} {entry : LossKey × R} (found : workerLoss category reported worker = some entry) :
    entry.1 = .perWorker category worker ∧ Scalar.IsLoss entry.2 ∧
      reported.get? worker = some entry.2 := by
  unfold workerLoss at found
  split at found
  next loss known =>
    split at found
    next proper =>
      cases found
      exact ⟨rfl, proper, known⟩
    next => cases found
  next => cases found

theorem counted_workerLosses {required : Option String} {roster : OrderedSet Address}
    {bundle : Bundle R} {category : WorkerCategory} {reported : Table Address R}
    {losses : List (LossKey × R)} (read : bundle.valuesFor required category = .ok reported)
    (found : workerLosses roster category reported = some losses) :
    Counted required roster (.perWorker category) losses := by
  unfold workerLosses at found
  split at found
  next => cases found
  next somebody =>
    have each := mapM_eq_some_iff.mp found
    have keys : losses.map Prod.fst = roster.toList.map (.perWorker category) :=
      map_eq_map_of_forall₂ (each.imp fun _ _ head => (workerLoss_eq_some head).1)
    refine ⟨keys, ?_, ?_, ?_⟩
    · intro entry inside
      obtain ⟨worker, -, head⟩ := exists_left_of_forall₂ each inside
      exact (workerLoss_eq_some head).2.1
    · rintro rfl
      have nobody : roster.toList = [] := List.map_eq_nil_iff.mp keys.symm
      exact somebody (by rw [OrderedSet.isEmpty, nobody]; rfl)
    · intro key inside worker named
      obtain ⟨other, member, rfl⟩ := List.mem_map.mp inside
      cases named
      obtain ⟨_, -, head⟩ := exists_right_of_forall₂ each member
      have known := Table.mem_entries_of_get? (workerLoss_eq_some head).2.2
      exact Bundle.parsed_of_valuesFor read (List.mem_map_of_mem known)

theorem reports_of_wholeLosses {bundle : Bundle R} {category : WholeCategory}
    {losses : List (LossKey × R)} (found : wholeLosses bundle category = some losses) :
    ∀ entry ∈ losses, bundle.Reports entry.2 := by
  unfold wholeLosses at found
  split at found
  next loss known =>
    split at found
    next =>
      cases found
      intro entry inside
      rw [List.mem_singleton.mp inside]
      exact .inl ⟨category, known⟩
    next => cases found
  next => cases found

theorem reports_of_workerLosses {required : Option String} {roster : OrderedSet Address}
    {bundle : Bundle R} {category : WorkerCategory} {reported : Table Address R}
    {losses : List (LossKey × R)} (read : bundle.valuesFor required category = .ok reported)
    (found : workerLosses roster category reported = some losses) :
    ∀ entry ∈ losses, bundle.Reports entry.2 := by
  intro entry inside
  unfold workerLosses at found
  split at found
  next => cases found
  next =>
    obtain ⟨worker, -, head⟩ := exists_left_of_forall₂ (mapM_eq_some_iff.mp found) inside
    have known := Table.mem_entries_of_get? (workerLoss_eq_some head).2.2
    obtain ⟨sent, listed, -, same⟩ :=
      exists_left_of_forall₂ (Bundle.valuesFor_eq_ok_iff.mp read) known
    exact .inr ⟨category, sent, listed, same.symm⟩

def partsOf (roster : OrderedSet Address) (bundle : Bundle R)
    (values : WorkerCategory → Table Address R) : List (Category × Option (List (LossKey × R))) :=
  Category.wholes.map (fun category => (.whole category, wholeLosses bundle category)) ++
    Category.perWorkers.map fun category =>
      (.perWorker category, workerLosses roster category (values category))

theorem whole_mem_partsOf {roster : OrderedSet Address} {bundle : Bundle R}
    {values : WorkerCategory → Table Address R} {category : WholeCategory}
    {losses : Option (List (LossKey × R))} :
    (.whole category, losses) ∈ partsOf roster bundle values ↔
      losses = wholeLosses bundle category := by
  cases category <;> simp [partsOf, Category.wholes]

theorem perWorker_mem_partsOf {roster : OrderedSet Address} {bundle : Bundle R}
    {values : WorkerCategory → Table Address R} {category : WorkerCategory}
    {losses : Option (List (LossKey × R))} :
    (.perWorker category, losses) ∈ partsOf roster bundle values ↔
      losses = workerLosses roster category (values category) := by
  cases category <;> simp [partsOf, Category.perWorkers]

theorem filter_eq_ok_iff {required : Option String} {roster : OrderedSet Address}
    {reputer : Address} {bundle : Bundle R} {coverage : Coverage R} :
    filter required roster reputer bundle = .ok coverage ↔
      ∃ values, (∀ category, bundle.valuesFor required category = .ok (values category)) ∧
        coverage = ofParts reputer (partsOf roster bundle values) := by
  unfold filter
  rw [Fault.bind_eq_ok_iff]
  constructor
  · rintro ⟨reported, reads, packed⟩
    cases packed
    have each : ∀ category, ∃ values, bundle.valuesFor required category = .ok values := by
      intro category
      have asked : category ∈ Category.perWorkers := by cases category <;> decide
      obtain ⟨_, -, read⟩ := exists_right_of_forall₂ (Fault.mapM_eq_ok_iff.mp reads) asked
      obtain ⟨values, found, -⟩ := Fault.bind_eq_ok_iff.mp read
      exact ⟨values, found⟩
    choose values found using each
    refine ⟨values, found, ?_⟩
    have same : reported = Category.perWorkers.map fun category => (category, values category) := by
      refine Except.ok.inj (reads.symm.trans (Fault.mapM_eq_ok_iff.mpr ?_))
      rw [List.forall₂_map_right_iff, List.forall₂_same]
      exact fun category _ => Fault.bind_eq_ok_iff.mpr ⟨_, found category, rfl⟩
    rw [same, List.map_map]
    rfl
  · rintro ⟨values, found, rfl⟩
    refine ⟨Category.perWorkers.map fun category => (category, values category), ?_, ?_⟩
    · rw [Fault.mapM_eq_ok_iff, List.forall₂_map_right_iff, List.forall₂_same]
      exact fun category _ => Fault.bind_eq_ok_iff.mpr ⟨_, found category, rfl⟩
    · rw [List.map_map]
      rfl

theorem counted_of_mem_partsOf {required : Option String} {roster : OrderedSet Address}
    {bundle : Bundle R} {values : WorkerCategory → Table Address R}
    (read : ∀ category, bundle.valuesFor required category = .ok (values category))
    {category : Category} {losses : List (LossKey × R)}
    (inside : (category, some losses) ∈ partsOf roster bundle values) :
    Counted required roster category losses := by
  cases category with
  | whole category => exact counted_wholeLosses (whole_mem_partsOf.mp inside).symm
  | perWorker category =>
    exact counted_workerLosses (read category) (perWorker_mem_partsOf.mp inside).symm

theorem counted_of_filter {required : Option String} {roster : OrderedSet Address}
    {reputer : Address} {bundle : Bundle R} {coverage : Coverage R}
    (filtered : filter required roster reputer bundle = .ok coverage) :
    ∃ parts, coverage = ofParts reputer parts ∧ ∀ category losses,
      (category, some losses) ∈ parts → Counted required roster category losses := by
  obtain ⟨values, read, rfl⟩ := filter_eq_ok_iff.mp filtered
  exact ⟨_, rfl, fun _ _ => counted_of_mem_partsOf read⟩

section Filter

variable {required : Option String} {roster : OrderedSet Address} {reputer : Address}
  {bundle : Bundle R} {coverage : Coverage R}

theorem mem_keys_of_filter (filtered : filter required roster reputer bundle = .ok coverage)
    {key : LossKey} :
    key ∈ coverage.losses.keys ↔
      ∃ category ∈ coverage.eligible, key ∈ LossKey.within roster category := by
  obtain ⟨parts, rfl, counted⟩ := counted_of_filter filtered
  simp only [mem_eligible_ofParts]
  rw [ofParts, Table.mem_keys_ofList, List.map_flatMap, List.mem_flatMap]
  constructor
  · rintro ⟨⟨category, _ | losses⟩, part, inside⟩
    · cases inside
    · exact ⟨category, ⟨losses, part⟩, (counted category losses part).keys ▸ inside⟩
  · rintro ⟨category, ⟨losses, part⟩, inside⟩
    exact ⟨_, part, (counted category losses part).keys.symm ▸ inside⟩

theorem part_of_mem_entries (filtered : filter required roster reputer bundle = .ok coverage)
    {entry : LossKey × R} (inside : entry ∈ coverage.losses.entries) :
    ∃ category losses, Counted required roster category losses ∧ entry ∈ losses := by
  obtain ⟨parts, rfl, counted⟩ := counted_of_filter filtered
  obtain ⟨⟨category, _ | losses⟩, part, member⟩ :=
    List.mem_flatMap.mp (Table.mem_of_mem_entries_ofList inside)
  · cases member
  · exact ⟨category, losses, counted category losses part, member⟩

theorem proper_of_filter (filtered : filter required roster reputer bundle = .ok coverage) :
    ∀ entry ∈ coverage.losses.entries, Scalar.IsLoss entry.2 := by
  intro entry inside
  obtain ⟨_, _, counted, member⟩ := part_of_mem_entries filtered inside
  exact counted.proper entry member

theorem parsed_of_filter (filtered : filter required roster reputer bundle = .ok coverage)
    {key : LossKey} (inside : key ∈ coverage.losses.keys) {worker : Address}
    (named : worker ∈ key.worker) : ∃ text, Address.parse required text = .ok worker := by
  obtain ⟨entry, member, rfl⟩ := List.mem_map.mp inside
  obtain ⟨_, _, counted, part⟩ := part_of_mem_entries filtered member
  exact counted.accounts _ (counted.keys ▸ List.mem_map_of_mem part) worker named

theorem within_ne_nil_of_filter (filtered : filter required roster reputer bundle = .ok coverage)
    {category : Category} (counts : category ∈ coverage.eligible) :
    LossKey.within roster category ≠ [] := by
  obtain ⟨parts, rfl, counted⟩ := counted_of_filter filtered
  obtain ⟨losses, part⟩ := mem_eligible_ofParts.mp counts
  rw [← (counted category losses part).keys]
  exact fun empty => (counted category losses part).filled (List.map_eq_nil_iff.mp empty)

theorem losses_ne_nil_of_filter (filtered : filter required roster reputer bundle = .ok coverage)
    (eligible : coverage.hasEligible) : coverage.losses.entries ≠ [] := by
  unfold hasEligible OrderedSet.isEmpty at eligible
  rw [Bool.not_eq_true', List.isEmpty_eq_false_iff] at eligible
  obtain ⟨category, counts⟩ := List.exists_mem_of_ne_nil _ eligible
  obtain ⟨key, member⟩ := List.exists_mem_of_ne_nil _ (within_ne_nil_of_filter filtered counts)
  have own := (mem_keys_of_filter filtered).mpr ⟨category, counts, member⟩
  exact fun none => List.ne_nil_of_mem own (by rw [Table.keys, none, List.map_nil])

theorem reports_of_filter (filtered : filter required roster reputer bundle = .ok coverage) :
    ∀ entry ∈ coverage.losses.entries, bundle.Reports entry.2 := by
  intro entry inside
  obtain ⟨values, read, rfl⟩ := filter_eq_ok_iff.mp filtered
  obtain ⟨⟨category, _ | losses⟩, part, member⟩ :=
    List.mem_flatMap.mp (Table.mem_of_mem_entries_ofList inside)
  · cases member
  · cases category with
    | whole category =>
      exact reports_of_wholeLosses (whole_mem_partsOf.mp part).symm entry member
    | perWorker category =>
      exact reports_of_workerLosses (read category) (perWorker_mem_partsOf.mp part).symm entry member

theorem reputer_of_filter (filtered : filter required roster reputer bundle = .ok coverage) :
    coverage.reputer = reputer := by
  obtain ⟨parts, rfl, -⟩ := counted_of_filter filtered
  rfl

end Filter

end Coverage
end RoundScoring
