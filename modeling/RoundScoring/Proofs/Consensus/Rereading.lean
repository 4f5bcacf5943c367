import RoundScoring.Proofs.Consensus.Network
import RoundScoring.Proofs.Rounds.Roster

/-!
A consensus that is written as a bundle and read again. Where the reports were filtered under one
setting against one roster, each key of the levels is that of a category or that of a worker who was
read from a text; the bundle has both, and reading it under the same setting returns the losses of
the consensus under their own keys, and nothing else (`Consensus.bundle_is_read_back_as_consensus`).
-/

namespace RoundScoring.Consensus

variable {R : Type}

theorem get?_eq_of_entries_eq_workersOf {losses : Table LossKey R} {category : WorkerCategory}
    {values : Table Address R} (own : values.entries = workersOf losses.entries category)
    (worker : Address) : values.get? worker = losses.get? (.perWorker category worker) := by
  ext loss
  constructor
  · intro found
    have inside := Table.mem_entries_of_get? found
    rw [own] at inside
    exact Table.get?_of_mem_entries (mem_workersOf.mp inside)
  · intro found
    apply Table.get?_of_mem_entries
    rw [own]
    exact mem_workersOf.mpr (Table.mem_entries_of_get? found)

/-- A bundle that is read, under a setting, as losses under their keys: each loss in the place that
its key says, no other loss, and the workers of a category in order. -/
structure ReadsAs (required : Option String) (losses : Table LossKey R) (bundle : Bundle R) :
    Prop where
  whole : ∀ category, bundle.whole? (.whole category) = .ok (losses.get? (.whole category))
  perWorker : ∀ category, ∃ values,
    bundle.valuesFor? required (.perWorker category) = .ok values ∧
    (∀ worker, values.get? worker = losses.get? (.perWorker category worker)) ∧
    Ascending values.keys ∧
    (bundle.entries category).map WorkerLoss.worker = values.keys.map Address.text
  keys : ∀ key ∈ losses.keys,
    (∃ category, key = .whole category) ∨ ∃ category worker, key = .perWorker category worker

theorem readsAs_of_carries {required : Option String} {losses : Table LossKey R} {bundle : Bundle R}
    (carries : Carries required losses bundle) (ascending : Ascending losses.keys)
    (within : ∀ key ∈ losses.keys, ∃ roster category, key ∈ LossKey.within roster category) :
    ReadsAs required losses bundle := by
  refine ⟨fun category => congrArg Except.ok (carries.whole category), fun category => ?_,
    fun key inside => ?_⟩
  · obtain ⟨values, read, own⟩ := carries.read category
    refine ⟨values, read, get?_eq_of_entries_eq_workersOf own, ?_, ?_⟩
    · rw [Table.keys, own, map_fst_workersOf]
      exact ascending_workersUnder ascending category
    · rw [carries.entries, workerEntries_eq_map, Table.keys, own, List.map_map, List.map_map]
      rfl
  · obtain ⟨roster, category, member⟩ := within key inside
    cases category with
    | whole category => exact .inl ⟨category, List.mem_singleton.mp member⟩
    | perWorker category =>
      obtain ⟨worker, -, rfl⟩ := List.mem_map.mp member
      exact .inr ⟨category, worker, rfl⟩

variable [Scalar R]

theorem get?_losses_eq_some_iff {consensus : Consensus R} {losses : Table LossKey R}
    (computed : consensus.losses = .ok losses.entries) {key : LossKey} {loss : R} :
    losses.get? key = some loss ↔ LevelOf consensus key loss := by
  constructor
  · intro found
    exact levelOf_of_mem_losses computed (Table.mem_entries_of_get? found)
  · rintro ⟨level, known, power⟩
    have listed : key ∈ losses.keys := by
      rw [Table.keys, keys_losses computed]
      exact List.mem_map_of_mem (f := Prod.fst) (Table.mem_entries_of_get? known)
    obtain ⟨loss', found⟩ := Table.exists_get?_of_mem_keys listed
    obtain ⟨_, known', power'⟩ := levelOf_of_mem_losses computed (Table.mem_entries_of_get? found)
    rw [known] at known'
    cases known'
    rw [power] at power'
    cases power'
    exact found

theorem bundle_is_read_back_as_consensus {required : Option String} {roster : OrderedSet Address}
    {config : Config R} {reports : List (Report R)} {consensus : Consensus R} {topic : Int}
    {bundle : Bundle R} (filtered : Filtered required roster reports)
    (returned : aggregate config reports = .ok consensus)
    (made : consensus.toBundle topic = .ok bundle) :
    ∃ losses : Table LossKey R, consensus.losses = .ok losses.entries ∧
      losses.keys = consensus.levels.keys ∧
      (∀ key loss, losses.get? key = some loss ↔ LevelOf consensus key loss) ∧
      bundle.topic = topic ∧ ReadsAs required losses bundle := by
  have ascending := ascending_levels_of_aggregate returned
  obtain ⟨losses, computed, keys, same, carries⟩ :=
    carries_of_toBundle ascending (filtered.readable returned) made
  refine ⟨losses, computed, keys, fun _ _ => get?_losses_eq_some_iff computed, same,
    readsAs_of_carries carries (keys ▸ ascending) fun key inside => ⟨roster, ?_⟩⟩
  rw [keys] at inside
  exact filtered.exists_within returned key inside

/-- One reputer, who reports two workers out of order: both are read back, in order. -/
theorem two_workers_are_read_back :
    ∃ (coverage : Coverage Float) (consensus : Consensus Float) (bundle : Bundle Float),
      Filtered (some Address.usualHrp) .sample [⟨coverage, 1, 1⟩] ∧
      aggregate .usual [⟨coverage, 1, 1⟩] = .ok consensus ∧
      consensus.toBundle 7 = .ok bundle ∧
      bundle.oneOutInferer.map WorkerLoss.worker =
        [(Address.sample 1).text, (Address.sample 2).text] ∧
      ∃ losses : Table LossKey Float, consensus.losses = .ok losses.entries ∧
        losses.keys = consensus.levels.keys ∧
        (∀ key loss, losses.get? key = some loss ↔ LevelOf consensus key loss) ∧
        bundle.topic = 7 ∧ ReadsAs (some Address.usualHrp) losses bundle := by
  have written : (do
      let coverage ← Coverage.filter (some Address.usualHrp) .sample (.sample 9) (.sample 3 2)
      let consensus ← aggregate .usual [⟨coverage, 1, 1⟩]
      let bundle ← consensus.toBundle 7
      return bundle.oneOutInferer.map WorkerLoss.worker : Except (Fault Float) (List String)) =
        .ok [(Address.sample 1).text, (Address.sample 2).text] := by
    decide +kernel
  obtain ⟨coverage, filter, rest⟩ := Fault.bind_eq_ok_iff.mp written
  obtain ⟨consensus, returned, rest⟩ := Fault.bind_eq_ok_iff.mp rest
  obtain ⟨bundle, made, packed⟩ := Fault.bind_eq_ok_iff.mp rest
  have filtered : Filtered (some Address.usualHrp) .sample [(⟨coverage, 1, 1⟩ : Report Float)] := by
    intro report inside
    cases List.mem_singleton.mp inside
    exact ⟨_, _, filter⟩
  exact ⟨coverage, consensus, bundle, filtered, returned, made, Except.ok.inj packed,
    bundle_is_read_back_as_consensus filtered returned made⟩

end RoundScoring.Consensus
