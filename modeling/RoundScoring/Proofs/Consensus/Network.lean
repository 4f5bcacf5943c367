import RoundScoring.Proofs.Bech32.RoundTrip
import RoundScoring.Proofs.Consensus.Keys
import RoundScoring.Proofs.Failing

/-!
A consensus as a bundle. What a consensus knows is written as a bundle and read again: its workers
are texts in between, and come back as the accounts that they were, in the order of the levels.
-/

namespace RoundScoring.Consensus

variable {R : Type}

def workerUnder (category : WorkerCategory) (key : LossKey) : Option Address :=
  if key.category = .perWorker category then key.worker else none

theorem workerUnder_eq_some {category : WorkerCategory} {key : LossKey} {worker : Address} :
    workerUnder category key = some worker ↔ key = .perWorker category worker := by
  unfold workerUnder
  obtain ⟨own, named⟩ := key
  by_cases same : own = .perWorker category <;> simp [same, LossKey.perWorker]

theorem ascending_workersUnder {keys : List LossKey} (sorted : Ascending keys)
    (category : WorkerCategory) : Ascending (keys.filterMap (workerUnder category)) := by
  refine sorted.filterMap _ fun before after ordered worker first worker' second => ?_
  rw [workerUnder_eq_some.mp first, workerUnder_eq_some.mp second, LossKey.compare_perWorker] at ordered
  exact ordered

def workersOf (losses : List (LossKey × R)) (category : WorkerCategory) : List (Address × R) :=
  losses.filterMap fun (key, loss) => (workerUnder category key).map fun worker => (worker, loss)

theorem map_fst_workersOf (losses : List (LossKey × R)) (category : WorkerCategory) :
    (workersOf losses category).map Prod.fst =
      (losses.map Prod.fst).filterMap (workerUnder category) := by
  unfold workersOf
  rw [List.map_filterMap, List.filterMap_map]
  congr 1
  funext ⟨key, loss⟩
  simp [Function.comp_def]

theorem workerEntries_eq_map (losses : List (LossKey × R)) (category : WorkerCategory) :
    workerEntries losses category =
      (workersOf losses category).map fun (worker, loss) => ⟨worker.text, loss⟩ := by
  unfold workerEntries workersOf
  rw [List.map_filterMap]
  congr 1
  funext ⟨key, loss⟩
  unfold workerUnder
  by_cases own : key.category = .perWorker category <;> simp [own, Function.comp_def]

theorem mem_workersOf {losses : List (LossKey × R)} {category : WorkerCategory}
    {pair : Address × R} :
    pair ∈ workersOf losses category ↔ (LossKey.perWorker category pair.1, pair.2) ∈ losses := by
  obtain ⟨worker, loss⟩ := pair
  unfold workersOf
  rw [List.mem_filterMap]
  constructor
  · rintro ⟨⟨key, loss'⟩, inside, found⟩
    obtain ⟨worker', named, same⟩ := Option.map_eq_some_iff.mp found
    cases same
    rw [← workerUnder_eq_some.mp named]
    exact inside
  · intro inside
    refine ⟨_, inside, ?_⟩
    dsimp only
    rw [workerUnder_eq_some.mpr rfl]
    rfl

/-- Which keys the levels of a consensus have, and that their workers can be written and read again. -/
structure Keyed (required : Option String) (roster : OrderedSet Address) (counts : Category → Prop)
    (consensus : Consensus R) : Prop where
  keys : ∀ key, key ∈ consensus.levels.keys ↔
    ∃ category, counts category ∧ key ∈ LossKey.within roster category
  ascending : Ascending consensus.levels.keys
  readable : ∀ key ∈ consensus.levels.keys, ∀ worker ∈ key.worker,
    Address.parse required worker.text = .ok worker
  filled : ∀ category, counts category → LossKey.within roster category ≠ []

section Keyed

variable {required : Option String} {roster : OrderedSet Address} {counts : Category → Prop}
  {consensus : Consensus R}

theorem Keyed.whole_mem_iff (keyed : Keyed required roster counts consensus)
    (category : WholeCategory) :
    LossKey.whole category ∈ consensus.levels.keys ↔ counts (.whole category) := by
  rw [keyed.keys]
  constructor
  · rintro ⟨other, counted, inside⟩
    rw [← LossKey.category_of_within inside] at counted
    exact counted
  · intro counted
    exact ⟨_, counted, List.mem_singleton_self _⟩

theorem Keyed.perWorker_mem_iff (keyed : Keyed required roster counts consensus)
    (category : WorkerCategory) (worker : Address) :
    LossKey.perWorker category worker ∈ consensus.levels.keys ↔
      counts (.perWorker category) ∧ worker ∈ roster := by
  rw [keyed.keys]
  constructor
  · rintro ⟨other, counted, inside⟩
    have own := LossKey.category_of_within inside
    rw [← own] at counted inside
    obtain ⟨worker', member, same⟩ := List.mem_map.mp inside
    cases same
    exact ⟨counted, member⟩
  · rintro ⟨counted, member⟩
    exact ⟨_, counted, List.mem_map_of_mem member⟩

theorem Keyed.roster_ne_nil (keyed : Keyed required roster counts consensus)
    {category : WorkerCategory} (counted : counts (.perWorker category)) : roster.toList ≠ [] := by
  intro nobody
  apply keyed.filled _ counted
  unfold LossKey.within
  rw [nobody]
  rfl

theorem Keyed.workersUnder_eq (keyed : Keyed required roster counts consensus)
    {category : WorkerCategory} (counted : counts (.perWorker category)) :
    consensus.levels.keys.filterMap (workerUnder category) = roster.toList := by
  refine eq_of_ascending (ascending_workersUnder keyed.ascending category) roster.ascending
    fun worker => ?_
  rw [List.mem_filterMap]
  simp only [workerUnder_eq_some, exists_eq_right, keyed.perWorker_mem_iff]
  exact and_iff_right counted

theorem Keyed.workersUnder_eq_nil (keyed : Keyed required roster counts consensus)
    {category : WorkerCategory} (uncounted : ¬counts (.perWorker category)) :
    consensus.levels.keys.filterMap (workerUnder category) = [] := by
  rw [List.filterMap_eq_nil_iff]
  intro key inside
  rw [Option.eq_none_iff_forall_ne_some]
  intro worker named
  rw [workerUnder_eq_some.mp named] at inside
  exact uncounted ((keyed.perWorker_mem_iff category worker).mp inside).1

theorem Keyed.readable_of_mem (keyed : Keyed required roster counts consensus)
    {category : WorkerCategory} (counted : counts (.perWorker category)) {worker : Address}
    (member : worker ∈ roster) : Address.parse required worker.text = .ok worker :=
  keyed.readable _ ((keyed.perWorker_mem_iff category worker).mpr ⟨counted, member⟩) _ rfl

end Keyed

variable [Scalar R]

/-- Reports of what counts of bundles that were all filtered against one roster. -/
def Filtered (required : Option String) (roster : OrderedSet Address) (reports : List (Report R)) :
    Prop :=
  ∀ report ∈ reports, ∃ reputer bundle,
    Coverage.filter required roster reputer bundle = .ok report.coverage

section Filtered

variable {required : Option String} {roster : OrderedSet Address} {reports : List (Report R)}
  {config : Config R} {consensus : Consensus R}

theorem Filtered.exists_within (filtered : Filtered required roster reports)
    (returned : aggregate config reports = .ok consensus) :
    ∀ key ∈ consensus.levels.keys, ∃ category, key ∈ LossKey.within roster category := by
  intro key inside
  obtain ⟨report, takes, brought⟩ := (mem_keys_levels_of_aggregate returned).mp inside
  obtain ⟨reputer, bundle, filter⟩ := filtered report (List.mem_filter.mp takes).1
  obtain ⟨category, -, within⟩ := (Coverage.mem_keys_of_filter filter).mp brought
  exact ⟨category, within⟩

theorem Filtered.readable (filtered : Filtered required roster reports)
    (returned : aggregate config reports = .ok consensus) :
    ∀ key ∈ consensus.levels.keys, ∀ worker ∈ key.worker,
      Address.parse required worker.text = .ok worker := by
  intro key inside worker named
  obtain ⟨report, takes, brought⟩ := (mem_keys_levels_of_aggregate returned).mp inside
  obtain ⟨reputer, bundle, filter⟩ := filtered report (List.mem_filter.mp takes).1
  obtain ⟨text, parsed⟩ := Coverage.parsed_of_filter filter brought named
  exact Address.parse_text parsed

end Filtered

def LevelOf (consensus : Consensus R) (key : LossKey) (loss : R) : Prop :=
  ∃ level, consensus.levels.get? key = some level ∧ Scalar.powerOfTen? level = some loss

structure ReadBack (required : Option String) (roster : OrderedSet Address)
    (counts : Category → Prop) (consensus : Consensus R) (network : Bundle R)
    (values : WorkerCategory → Table Address R) : Prop where
  whole : ∀ category, (network.whole category).isSome ↔ counts (.whole category)
  wholeLevel : ∀ category, ∀ loss ∈ network.whole category,
    LevelOf consensus (.whole category) loss
  read : ∀ category, network.valuesFor required category = .ok (values category)
  workers : ∀ category, counts (.perWorker category) → (values category).keys = roster.toList
  nobody : ∀ category, ¬counts (.perWorker category) → (values category).entries = []
  workerLevel : ∀ category, ∀ pair ∈ (values category).entries,
    LevelOf consensus (.perWorker category pair.1) pair.2

theorem losses_eq_ok {consensus : Consensus R} {losses : List (LossKey × R)}
    (computed : consensus.losses = .ok losses) :
    List.Forall₂ (fun level loss => loss.1 = level.1 ∧ Scalar.powerOfTen? level.2 = some loss.2)
      consensus.levels.entries losses := by
  refine (Fault.mapM_eq_ok_iff.mp computed).imp fun level loss found => ?_
  dsimp only at found
  split at found
  next power =>
    cases found
    exact ⟨rfl, power⟩
  next => cases found

theorem within_losses (consensus : Consensus R) : Fault.Within (· = .overflow) consensus.losses := by
  refine Fault.within_mapM (fun entry => ?_) _
  obtain ⟨key, level⟩ := entry
  dsimp only
  split
  next => exact Fault.within_ok _
  next => exact Fault.within_error rfl

theorem keys_losses {consensus : Consensus R} {losses : List (LossKey × R)}
    (computed : consensus.losses = .ok losses) :
    losses.map Prod.fst = consensus.levels.keys :=
  map_eq_map_of_forall₂ ((losses_eq_ok computed).imp fun _ _ both => both.1)

theorem levelOf_of_mem_losses {consensus : Consensus R} {losses : List (LossKey × R)}
    (computed : consensus.losses = .ok losses) {key : LossKey} {loss : R}
    (inside : (key, loss) ∈ losses) : LevelOf consensus key loss := by
  obtain ⟨⟨_, level⟩, member, rfl, power⟩ := exists_left_of_forall₂ (losses_eq_ok computed) inside
  exact ⟨level, Table.get?_of_mem_entries member, power⟩

/-- Losses under their keys, as a bundle holds them: one for the whole network where there is one,
and of the workers those that can be read, in the order of their keys. -/
structure Carries (required : Option String) (losses : Table LossKey R) (bundle : Bundle R) :
    Prop where
  whole : ∀ category, bundle.whole category = losses.get? (.whole category)
  entries : ∀ category, bundle.entries category = workerEntries losses.entries category
  read : ∀ category, ∃ values, bundle.valuesFor required category = .ok values ∧
    values.entries = workersOf losses.entries category

theorem carries_of_toBundle {required : Option String} {consensus : Consensus R}
    (ascending : Ascending consensus.levels.keys)
    (readable : ∀ key ∈ consensus.levels.keys, ∀ worker ∈ key.worker,
      Address.parse required worker.text = .ok worker) {topic : Int} {bundle : Bundle R}
    (made : consensus.toBundle topic = .ok bundle) :
    ∃ losses : Table LossKey R, consensus.losses = .ok losses.entries ∧
      losses.keys = consensus.levels.keys ∧ bundle.topic = topic ∧
      Carries required losses bundle := by
  obtain ⟨losses, computed, packed⟩ := Fault.bind_eq_ok_iff.mp made
  have keys := keys_losses computed
  have ordered : sortedBy (·.1.place) losses = losses := by
    rw [← keys] at ascending
    exact sortedBy_of_ascending (List.pairwise_map.mp ascending)
  dsimp only at packed
  rw [ordered] at packed
  have entries : ∀ category, bundle.entries category = workerEntries losses category := by
    cases packed
    intro category
    cases category <;> rfl
  have distinct : ∀ category, ((workersOf losses category).map Prod.fst).Nodup := by
    intro category
    rw [map_fst_workersOf, keys]
    exact OrderedSet.nodup_toList ⟨_, ascending_workersUnder ascending category⟩
  refine ⟨⟨losses, keys ▸ consensus.levels.distinct⟩, computed, keys, ?_, ?_, entries,
    fun category => ⟨⟨_, distinct category⟩, ?_, rfl⟩⟩
  · cases packed
    rfl
  · cases packed
    intro category
    cases category <;> rfl
  · rw [Bundle.valuesFor_eq_ok_iff, entries, workerEntries_eq_map, List.forall₂_map_left_iff,
      List.forall₂_same]
    intro pair inside
    have listed : LossKey.perWorker category pair.1 ∈ consensus.levels.keys := by
      rw [← keys]
      exact List.mem_map_of_mem (mem_workersOf.mp inside)
    exact ⟨readable _ listed _ rfl, rfl⟩

theorem readBack_of_toBundle {required : Option String} {roster : OrderedSet Address}
    {counts : Category → Prop} {consensus : Consensus R}
    (keyed : Keyed required roster counts consensus) {topic : Int} {network : Bundle R}
    (made : consensus.toBundle topic = .ok network) :
    ∃ values, ReadBack required roster counts consensus network values := by
  obtain ⟨losses, computed, keys, -, carries⟩ :=
    carries_of_toBundle keyed.ascending keyed.readable made
  choose values read workers using carries.read
  have own : ∀ category, (values category).keys =
      consensus.levels.keys.filterMap (workerUnder category) := by
    intro category
    rw [Table.keys, workers, map_fst_workersOf, ← keys, Table.keys]
  refine ⟨values, fun category => ?_, fun category loss found => ?_, read,
    fun category counted => ?_, fun category uncounted => ?_, fun category pair inside => ?_⟩
  · rw [carries.whole, ← keyed.whole_mem_iff, ← keys, Option.isSome_iff_ne_none, ne_eq,
      Table.get?_eq_none_iff, not_not]
  · rw [carries.whole] at found
    exact levelOf_of_mem_losses computed (Table.mem_entries_of_get? found)
  · exact (own category).trans (keyed.workersUnder_eq counted)
  · exact List.map_eq_nil_iff.mp ((own category).trans (keyed.workersUnder_eq_nil uncounted))
  · rw [workers] at inside
    exact levelOf_of_mem_losses computed (mem_workersOf.mp inside)

end RoundScoring.Consensus
