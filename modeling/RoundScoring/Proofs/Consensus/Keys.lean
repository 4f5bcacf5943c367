import RoundScoring.Proofs.Consensus.Aggregate
import RoundScoring.Proofs.Covering

/-!
Under which keys a consensus has levels: those of the losses that count for some participant, in
order. Numbers play no part in it.
-/

namespace RoundScoring.Consensus

variable {R : Type}

theorem mem_lossKeys {reports : List (Report R)} {key : LossKey} :
    key ∈ lossKeys reports ↔ ∃ report ∈ reports, key ∈ report.coverage.losses.keys := by
  unfold lossKeys
  rw [OrderedSet.mem_ofList, List.mem_flatMap]

variable [Scalar R] {config : Config R} {reports : List (Report R)} {consensus : Consensus R}

theorem map_fst_of_levelsOf {keys : OrderedSet LossKey} {levels : List (LossKey × R)}
    (leveled : levelsOf keys reports = .ok levels) : levels.map Prod.fst = keys.toList := by
  refine (map_eq_map_of_forall₂ ((Fault.mapM_eq_ok_iff.mp leveled).imp fun key entry found => ?_)).trans
    (List.map_id _)
  obtain ⟨_, _, packed⟩ := Fault.bind_eq_ok_iff.mp found
  cases packed
  rfl

theorem keys_levels_of_aggregate (returned : aggregate config reports = .ok consensus) :
    consensus.levels.keys = (lossKeys (taking reports)).toList := by
  by_cases nobody : taking reports = []
  · rw [aggregate_of_nobody nobody] at returned
    cases returned
    rw [nobody]
    rfl
  · obtain ⟨_, _, levels, concluded⟩ := concluded_of_aggregate nobody returned
    have keys := map_fst_of_levelsOf concluded.leveled
    rw [concluded.concludes]
    change (Table.ofList levels).entries.map Prod.fst = _
    rw [Table.entries_ofList (keys ▸ OrderedSet.nodup_toList _), keys]

theorem mem_keys_levels_of_aggregate (returned : aggregate config reports = .ok consensus)
    {key : LossKey} :
    key ∈ consensus.levels.keys ↔ ∃ report ∈ taking reports, key ∈ report.coverage.losses.keys := by
  rw [keys_levels_of_aggregate returned]
  exact mem_lossKeys

theorem ascending_levels_of_aggregate (returned : aggregate config reports = .ok consensus) :
    Ascending consensus.levels.keys := by
  rw [keys_levels_of_aggregate returned]
  exact OrderedSet.ascending _

theorem mem_participants_of_aggregate (returned : aggregate config reports = .ok consensus)
    {reputer : Address} :
    reputer ∈ consensus.participants ↔ ∃ report ∈ taking reports, report.reputer = reputer := by
  by_cases nobody : taking reports = []
  · rw [aggregate_of_nobody nobody] at returned
    cases returned
    rw [nobody]
    simp [conclude, participants, Table.ofList, Table.keys]
  · obtain ⟨settled, _, levels, concluded⟩ := concluded_of_aggregate nobody returned
    have reputers : settled.map Report.reputer = (taking reports).map Report.reputer := by
      have same := congrArg (List.map Coverage.reputer) (map_coverage_of_settle concluded.settles)
      simp only [List.map_map] at same
      exact same
    rw [concluded.concludes]
    change reputer ∈ (Table.ofList _).keys ↔ _
    rw [Table.mem_keys_ofList, List.map_map]
    change reputer ∈ settled.map Report.reputer ↔ _
    rw [reputers, List.mem_map]

end RoundScoring.Consensus
