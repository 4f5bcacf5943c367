import RoundScoring.Proofs.Consensus.Relisting
import RoundScoring.Proofs.Covering.Definition
import RoundScoring.Proofs.Rounds.Roster

/-!
Loss keys have one order, and whatever lists them keeps to it: the levels of a consensus, the workers
of the bundle that is made of it, and the losses that count of a bundle. None of this depends on the
order in which a set or a table is gone through (`loss_keys_have_one_order`).
-/

namespace RoundScoring

variable {R : Type}

theorem LossKey.inOrder_map_sorted {listed : List Address} (nodup : listed.Nodup)
    (category : WorkerCategory) :
    InOrder ((Address.sorted listed).map (.perWorker category)) := by
  rw [inOrder_iff_ascending]
  have keys : (listed.map (perWorker category)).Nodup :=
    nodup.map fun _ _ same => Option.some.inj (congrArg LossKey.worker same)
  have sorted := sortedBy_place_map_some (.perWorker category) listed
  change sortedBy place (listed.map (perWorker category)) = _ at sorted
  change Ascending ((Address.sorted listed).map (mk (.perWorker category) ∘ some))
  rw [← sorted]
  exact ascending_sortedBy (distinct_places keys)

namespace Coverage

variable [Scalar R] {required : Option String} {roster : OrderedSet Address} {reputer : Address}
  {bundle : Bundle R} {coverage : Coverage R}

theorem ascending_of_filter (filtered : filter required roster reputer bundle = .ok coverage) :
    Ascending coverage.losses.keys :=
  List.pairwise_map.mpr (covers_of_filter filtered).ascending

theorem map_fst_lossesFor (filtered : filter required roster reputer bundle = .ok coverage)
    {category : Category} (counts : category ∈ coverage.eligible) :
    (coverage.lossesFor category).map Prod.fst = LossKey.within roster category := by
  have ascending : Ascending ((coverage.lossesFor category).map Prod.fst) :=
    List.pairwise_map.mpr ((covers_of_filter filtered).ascending.filter _)
  refine eq_of_ascending ascending (LossKey.pairwise_within roster category) fun key => ?_
  unfold lossesFor
  constructor
  · intro inside
    obtain ⟨entry, kept, rfl⟩ := List.mem_map.mp inside
    obtain ⟨member, own⟩ := List.mem_filter.mp kept
    obtain ⟨other, -, within⟩ := (mem_keys_of_filter filtered).mp (List.mem_map_of_mem member)
    rw [← of_decide_eq_true own, LossKey.category_of_within within]
    exact within
  · intro within
    have inside := (mem_keys_of_filter filtered).mpr ⟨category, counts, within⟩
    obtain ⟨entry, member, rfl⟩ := List.mem_map.mp inside
    refine List.mem_map_of_mem (List.mem_filter.mpr ⟨member, ?_⟩)
    exact decide_eq_true (LossKey.category_of_within within)

end Coverage

namespace Consensus

variable [Scalar R] {consensus : Consensus R} {topic : Int} {bundle : Bundle R}

theorem map_worker_of_toBundle (made : consensus.toBundle topic = .ok bundle)
    {category : WorkerCategory} {listed : List Address}
    (enumerates : Enumerates (.perWorker category · ∈ consensus.levels.keys) listed) :
    (bundle.entries category).map WorkerLoss.worker =
      (Address.sorted listed).map Address.text := by
  obtain ⟨losses, computed, packed⟩ := Fault.bind_eq_ok_iff.mp made
  have keys := keys_losses computed
  have places : (losses.map (·.1.place)).Nodup :=
    LossKey.distinct_places_of_entries (keys ▸ consensus.levels.distinct)
  have ascending : Ascending ((sortedBy (·.1.place) losses).map Prod.fst) :=
    List.pairwise_map.mpr (ascending_sortedBy places)
  have entries : bundle.entries category = workerEntries (sortedBy (·.1.place) losses) category := by
    cases packed
    cases category <;> rfl
  have workers := ascending_workersUnder ascending category
  have sorted : Address.sorted listed =
      ((sortedBy (·.1.place) losses).map Prod.fst).filterMap (workerUnder category) := by
    let roster : OrderedSet Address := ⟨_, workers⟩
    change Address.sorted listed = roster.toList
    refine Address.sorted_eq_toList ⟨enumerates.nodup, fun worker => ?_⟩
    rw [enumerates.mem_iff, OrderedSet.mem_def, List.mem_filterMap]
    simp only [workerUnder_eq_some, exists_eq_right, ← keys]
    exact (((perm_sortedBy _ losses).map Prod.fst).mem_iff).symm
  rw [entries, workerEntries_eq_map, sorted, ← map_fst_workersOf, List.map_map, List.map_map]
  rfl

end Consensus

open Consensus

/-- The levels of a consensus and the losses that count of a bundle stand in the order of keys, and
the workers of a bundle and of a roster in the order of accounts, which is that of their keys. -/
theorem loss_keys_have_one_order :
    (∀ keys : Finset LossKey, ∃ ordered : List LossKey,
      Enumerates (· ∈ keys) ordered ∧
      (ordered.Pairwise fun a b => compare a.place b.place = .lt) ∧
      ∀ listed, Enumerates (· ∈ keys) listed → sortedBy LossKey.place listed = ordered) ∧
    Function.Injective LossKey.place ∧
    (∀ category worker,
      compare (LossKey.mk category none).place (LossKey.mk category (some worker)).place = .lt) ∧
    (∀ category v w,
      compare (LossKey.mk category (some v)).place (LossKey.mk category (some w)).place =
        compare v w) ∧
    (∀ v w : Address, compare v w = .lt ↔ v.Before w) ∧
    (∀ category workers,
      sortedBy LossKey.place (workers.map (LossKey.mk category ∘ some)) =
        (Address.sorted workers).map (LossKey.mk category ∘ some)) ∧
    (∀ keys keys', LossKey.InOrder keys → LossKey.InOrder keys' →
      keys.filter (· ∈ keys') = keys'.filter (· ∈ keys)) ∧
    ∀ (R : Type) [Scalar R],
      (∀ (reports : List (Report R)) listed,
        Enumerates (fun key => ∃ report ∈ reports, key ∈ report.coverage.losses.keys) listed →
          sortedBy LossKey.place listed = (lossKeys reports).toList) ∧
      (∀ (config : Config R) reports consensus, aggregate config reports = .ok consensus →
        consensus.levels.keys = (lossKeys (taking reports)).toList ∧
          LossKey.InOrder consensus.levels.keys) ∧
      (∀ (config : Config R) reports reports', List.Forall₂ Report.Relisted reports reports' →
        aggregate config reports' = aggregate config reports) ∧
      (∀ (consensus : Consensus R) topic bundle, consensus.toBundle topic = .ok bundle →
        ∀ category listed,
          Enumerates (.perWorker category · ∈ consensus.levels.keys) listed →
            LossKey.InOrder ((Address.sorted listed).map (.perWorker category)) ∧
              (bundle.entries category).map WorkerLoss.worker =
                (Address.sorted listed).map Address.text) ∧
      (∀ (consensus : Consensus R) (levels : Table LossKey R) topic,
        consensus.levels.entries.Perm levels.entries →
          { consensus with levels := levels }.toBundle topic = consensus.toBundle topic) ∧
      ∀ required roster reputer (bundle : Bundle R) coverage,
        Coverage.filter required roster reputer bundle = .ok coverage →
          LossKey.InOrder coverage.losses.keys ∧
          ∀ listed, Enumerates (· ∈ roster) listed →
            Coverage.filter required (.ofList listed) reputer bundle = .ok coverage ∧
            ∀ category, .perWorker category ∈ coverage.eligible →
              (coverage.lossesFor (.perWorker category)).map Prod.fst =
                (Address.sorted listed).map (.perWorker category) := by
  refine ⟨LossKey.exists_order, fun _ _ => LossKey.place_injective, LossKey.compare_place_none,
    LossKey.compare_place_some, fun _ _ => Address.compare_eq_lt_iff, LossKey.sortedBy_place_map_some,
    fun _ _ => LossKey.InOrder.filter_mem_comm, fun R _ => ⟨?_, ?_, ?_, ?_, ?_, ?_⟩⟩
  · intro reports listed enumerates
    refine LossKey.inOrder_iff_ascending.mpr (lossKeys reports).ascending listed
      ⟨enumerates.nodup, fun key => ?_⟩
    rw [enumerates.mem_iff, ← OrderedSet.mem_def, mem_lossKeys]
  · intro config reports consensus returned
    exact ⟨keys_levels_of_aggregate returned,
      LossKey.inOrder_iff_ascending.mpr (ascending_levels_of_aggregate returned)⟩
  · exact fun config reports reports' each => aggregate_of_relisted each
  · intro consensus topic bundle made category listed enumerates
    exact ⟨LossKey.inOrder_map_sorted enumerates.nodup category,
      map_worker_of_toBundle made enumerates⟩
  · exact fun consensus levels topic perm => toBundle_of_perm perm topic
  · intro required roster reputer bundle coverage filtered
    refine ⟨LossKey.inOrder_iff_ascending.mpr (Coverage.ascending_of_filter filtered), ?_⟩
    intro listed enumerates
    have same : OrderedSet.ofList listed = roster :=
      OrderedSet.ext fun worker => OrderedSet.mem_ofList.trans (enumerates.mem_iff worker)
    refine ⟨same ▸ filtered, fun category counts => ?_⟩
    rw [Coverage.map_fst_lossesFor filtered counts, Address.sorted_eq_toList enumerates]
    rfl

def Table.reversed {κ α : Type} (t : Table κ α) : Table κ α :=
  ⟨t.entries.reverse, by rw [List.map_reverse, List.nodup_reverse]; exact t.distinct⟩

/-- One reputer, who reports two workers. Wherever their keys are gone through out of order, or listed
the other way round, they come out in the one order. -/
theorem keys_of_two_workers_have_one_order :
    let second := LossKey.perWorker .oneOutInferer (.sample 2)
    let first := LossKey.perWorker .oneOutInferer (.sample 1)
    let shuffled := [second, .whole .combined, first]
    Enumerates (· ∈ shuffled.toFinset) shuffled ∧
    Enumerates (· ∈ shuffled.toFinset) shuffled.reverse ∧
    sortedBy LossKey.place shuffled.reverse = sortedBy LossKey.place shuffled ∧
    ∃ (coverage : Coverage Float) (consensus : Consensus Float) (bundle : Bundle Float),
      Coverage.filter (some Address.usualHrp) .sample (.sample 9) (.sample 3 2) = .ok coverage ∧
      aggregate .usual [⟨coverage, 1, 1⟩] = .ok consensus ∧
      consensus.toBundle 7 = .ok bundle ∧
      sortedBy LossKey.place shuffled = coverage.losses.keys ∧
      sortedBy LossKey.place shuffled = consensus.levels.keys ∧
      aggregate .usual [⟨{ coverage with losses := coverage.losses.reversed }, 1, 1⟩] =
        .ok consensus ∧
      { consensus with levels := consensus.levels.reversed }.toBundle 7 = .ok bundle ∧
      bundle.oneOutInferer.map WorkerLoss.worker =
        (Address.sorted [.sample 2, .sample 1]).map Address.text ∧
      (coverage.lossesFor (.perWorker .oneOutInferer)).map Prod.fst =
        (Address.sorted [.sample 2, .sample 1]).map (.perWorker .oneOutInferer) := by
  intro second first shuffled
  have distinct : shuffled.Nodup := by decide
  have forwards : Enumerates (· ∈ shuffled.toFinset) shuffled := ⟨distinct, by simp⟩
  have backwards : Enumerates (· ∈ shuffled.toFinset) shuffled.reverse :=
    ⟨List.nodup_reverse.mpr distinct, by simp⟩
  have written : (do
      let coverage ← Coverage.filter (some Address.usualHrp) .sample (.sample 9) (.sample 3 2)
      let consensus ← aggregate .usual [⟨coverage, 1, 1⟩]
      let _ ← consensus.toBundle 7
      return (decide (.perWorker .oneOutInferer ∈ coverage.eligible), coverage.losses.keys,
        consensus.levels.keys) : Except (Fault Float) (Bool × List LossKey × List LossKey)) =
          .ok (true, [.whole .combined, first, second], [.whole .combined, first, second]) := by
    decide +kernel
  obtain ⟨coverage, filter, rest⟩ := Fault.bind_eq_ok_iff.mp written
  obtain ⟨consensus, returned, rest⟩ := Fault.bind_eq_ok_iff.mp rest
  obtain ⟨bundle, made, packed⟩ := Fault.bind_eq_ok_iff.mp rest
  have keys := Except.ok.inj packed
  simp only [Prod.mk.injEq, decide_eq_true_eq] at keys
  obtain ⟨counts, losses, levels⟩ := keys
  obtain ⟨order, -, -, -, -, -, -, lists⟩ := loss_keys_have_one_order
  obtain ⟨-, leveled, relisted, workers, reordered, covered⟩ := lists Float
  obtain ⟨ordered, -, -, puts⟩ := order shuffled.toFinset
  obtain ⟨-, levelsOrdered⟩ := leveled _ _ _ returned
  obtain ⟨lossesOrdered, within⟩ := covered _ _ _ _ _ filter
  have listed : ∀ key, key ∈ shuffled ↔ key ∈ [.whole .combined, first, second] :=
    fun key => (show shuffled.Perm [.whole .combined, first, second] by decide).mem_iff
  refine ⟨forwards, backwards, (puts _ backwards).trans (puts _ forwards).symm, coverage, consensus,
    bundle, filter, returned, made, lossesOrdered _ ⟨distinct, fun key => ?_⟩,
    levelsOrdered _ ⟨distinct, fun key => ?_⟩, (relisted _ _ _ ?_).trans returned,
    (reordered _ _ _ ?_).trans made, (workers _ _ _ made .oneOutInferer _ ⟨?_, fun worker => ?_⟩).2,
    (within _ ⟨?_, fun worker => ?_⟩).2 _ counts⟩
  · rw [losses, listed]
  · rw [levels, listed]
  · exact .cons ⟨rfl, rfl, rfl, (List.reverse_perm _).symm, rfl, rfl⟩ .nil
  · exact (List.reverse_perm _).symm
  · decide
  · rw [levels]
    simp [first, second, LossKey.perWorker, LossKey.whole, or_comm]
  · decide
  · rw [OrderedSet.sample, OrderedSet.mem_ofList]

end RoundScoring
