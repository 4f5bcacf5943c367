import RoundScoring.Proofs.Rounds.Counting
import RoundScoring.Proofs.Rounds.Workers

/-!
Whom a round scores from its own consensus. A worker is scored when the categories that its score needs
have levels, and under a category the levels name the whole roster or nobody.
-/

namespace RoundScoring

open Keeper

variable {R : Type}

namespace Round

/-- Scores for all workers of a roster in their order, or for none of them. -/
structure AllOrNone (roster : OrderedSet Address) (scored : Prop) (scores : List (Score R)) :
    Prop where
  accounts : scores = [] ∨ scores.map Score.account = roster.toList.map Address.text
  nonempty : scores ≠ [] ↔ scored

theorem AllOrNone.nil {roster : OrderedSet Address} {scored : Prop} (not : ¬scored) :
    AllOrNone roster scored ([] : List (Score R)) :=
  ⟨.inl rfl, fun wrong => absurd rfl wrong, fun wrong => absurd wrong not⟩

theorem AllOrNone.of_accounts {roster : OrderedSet Address} {scored : Prop}
    {scores : List (Score R)} (accounts : scores.map Score.account = roster.toList.map Address.text)
    (somebody : roster.toList ≠ []) (holds : scored) : AllOrNone roster scored scores := by
  refine ⟨.inr accounts, fun _ => holds, fun _ nobody => somebody ?_⟩
  rw [nobody] at accounts
  exact List.map_eq_nil_iff.mp accounts.symm

variable [Scalar R]

section Scores

variable {policy : Policy R} {topic block : Int} {strict : Bool} {network : Bundle R}
  {roster : OrderedSet Address} {counts : Category → Prop} {consensus : Consensus R}
  {values : WorkerCategory → Table Address R}

theorem whole_eq_none_iff (back : Consensus.ReadBack policy.required roster counts consensus network
    values) (category : WholeCategory) :
    network.whole category = none ↔ ¬counts (.whole category) := by
  rw [← back.whole, Option.not_isSome_iff_eq_none]

theorem entries_eq_nil_iff (keyed : Consensus.Keyed policy.required roster counts consensus)
    (back : Consensus.ReadBack policy.required roster counts consensus network values)
    (category : WorkerCategory) : (values category).entries = [] ↔ ¬counts (.perWorker category) := by
  refine ⟨fun nobody counted => ?_, back.nobody category⟩
  apply keyed.roster_ne_nil counted
  rw [← back.workers category counted, Table.keys, nobody]
  rfl

theorem allOrNone_inferences (keyed : Consensus.Keyed policy.required roster counts consensus)
    (back : Consensus.ReadBack policy.required roster counts consensus network values)
    {scores : Option (List (Score R))}
    (scored : inferenceScores policy topic block strict network = .ok scores) :
    AllOrNone roster
      (roster.toList ≠ [] ∧ counts (.perWorker .oneOutInferer) ∧ counts (.whole .combined))
      (scores.getD []) := by
  rcases inferenceScores_eq_ok (back.read _) scored with
    ⟨missing, rfl⟩ | ⟨full, written, known, somebody, rfl, each⟩
  · rw [entries_eq_nil_iff keyed back, whole_eq_none_iff back] at missing
    exact .nil fun ⟨_, workers, whole⟩ => missing.elim (· workers) (· whole)
  · rw [ne_eq, entries_eq_nil_iff keyed back, not_not] at somebody
    have whole : counts (.whole .combined) := (back.whole _).mp (known ▸ rfl)
    refine .of_accounts ?_ (keyed.roster_ne_nil somebody)
      ⟨keyed.roster_ne_nil somebody, somebody, whole⟩
    rw [← back.workers _ somebody, Table.keys, List.map_map]
    refine map_eq_map_of_forall₂ (each.imp fun pair score same => ?_)
    rw [show score = _ from same]
    rfl

theorem allOrNone_forecasts (keyed : Consensus.Keyed policy.required roster counts consensus)
    (back : Consensus.ReadBack policy.required roster counts consensus network values)
    {scores : Option (List (Score R))}
    (scored : forecastScores policy topic block strict network = .ok scores) :
    AllOrNone roster
      (counts (.whole .combined) ∧ counts (.whole .naive) ∧ counts (.perWorker .oneOutForecaster) ∧
        counts (.perWorker .oneInForecaster))
      (scores.getD []) := by
  rcases forecastScores_eq_ok (back.read _) (back.read _) scored with
    ⟨missing, rfl⟩ | ⟨_, _, factor, written, combined, naive, -, rfl, each⟩
  · rw [entries_eq_nil_iff keyed back, whole_eq_none_iff back, whole_eq_none_iff back] at missing
    refine .nil fun ⟨combined, naive, _, alone⟩ => ?_
    exact missing.elim (· alone) fun whole => whole.elim (· combined) (· naive)
  · have combined : counts (.whole .combined) := (back.whole _).mp (combined ▸ rfl)
    have naive : counts (.whole .naive) := (back.whole _).mp (naive ▸ rfl)
    have accounts : written.map Score.account = ((values .oneInForecaster).keys.filter
        (· ∈ (values .oneOutForecaster).keys)).map Address.text := by
      unfold Table.keys
      rw [List.filter_map, List.map_map]
      refine map_eq_map_of_forall₂ (each.imp fun pair score found => ?_)
      obtain ⟨_, -, rfl⟩ := found
      rfl
    change AllOrNone roster _ written
    by_cases paired : counts (.perWorker .oneOutForecaster)
    · by_cases alone : counts (.perWorker .oneInForecaster)
      · refine .of_accounts ?_ (keyed.roster_ne_nil alone) ⟨combined, naive, paired, alone⟩
        rw [accounts, back.workers _ paired, back.workers _ alone]
        congr 1
        exact List.filter_eq_self.mpr fun worker inside => decide_eq_true inside
      · have nobody : (values .oneInForecaster).keys = [] := by
          rw [Table.keys, back.nobody _ alone]
          rfl
        rw [nobody] at accounts
        rw [List.map_eq_nil_iff.mp accounts]
        exact .nil fun both => alone both.2.2.2
    · have nobody : (values .oneOutForecaster).keys = [] := by
        rw [Table.keys, back.nobody _ paired]
        rfl
      rw [nobody] at accounts
      have none : written = [] := by simpa using accounts
      rw [none]
      exact .nil fun both => paired both.2.2.1

theorem leveled_inferences
    (back : Consensus.ReadBack policy.required roster counts consensus network values)
    {scores : Option (List (Score R))}
    (scored : inferenceScores policy topic block strict network = .ok scores)
    (somebody : scores.getD [] ≠ []) :
    List.Forall₂ (fun worker score => ∃ heldOut full,
        consensus.LevelOf (.perWorker .oneOutInferer worker) heldOut ∧
        consensus.LevelOf (.whole .combined) full ∧
        score = ⟨topic, block, worker.text, Scalar.log10 heldOut - Scalar.log10 full⟩)
      roster.toList (scores.getD []) := by
  rcases inferenceScores_eq_ok (back.read _) scored with
    ⟨-, rfl⟩ | ⟨full, written, known, filled, rfl, each⟩
  · exact absurd rfl somebody
  · have counted : counts (.perWorker .oneOutInferer) := by
      by_contra uncounted
      exact filled (back.nobody _ uncounted)
    rw [← back.workers _ counted, Table.keys, List.forall₂_map_left_iff]
    exact forall₂_imp_of_mem each fun pair inside score same =>
      ⟨pair.2, full, back.workerLevel _ pair inside, back.wholeLevel _ full known, same⟩

end Scores

theorem returned_of_run_record {kind : ScoreKind} {scores : Option (List (Score R))}
    {returned : List (Score R)} {topic block : Int} {keeper after : Keeper R}
    (ran : keeper.run (record kind topic block scores) = (.ok returned, after)) :
    returned = scores.getD [] := by
  cases scores with
  | none =>
    cases ran
    rfl
  | some scores =>
    obtain ⟨_, _, _, packed⟩ := run_bind_eq_ok_iff.mp ran
    cases packed
    rfl

theorem computed_of_run_scoreInferers {policy : Policy R} {topic block : Int} {strict : Bool}
    {network : Bundle R} {scores : List (Score R)} {keeper after : Keeper R}
    (ran : keeper.run (scoreInferers policy topic block strict network) = (.ok scores, after)) :
    ∃ computed, inferenceScores policy topic block strict network = .ok computed ∧
      scores = computed.getD [] := by
  obtain ⟨computed, computes, records⟩ := run_lift_bind_eq_ok_iff.mp ran
  exact ⟨computed, computes, returned_of_run_record records⟩

theorem computed_of_run_scoreForecasters {policy : Policy R} {topic block : Int} {strict : Bool}
    {network : Bundle R} {scores : List (Score R)} {keeper after : Keeper R}
    (ran : keeper.run (scoreForecasters policy topic block strict network) = (.ok scores, after)) :
    ∃ computed, forecastScores policy topic block strict network = .ok computed ∧
      scores = computed.getD [] := by
  obtain ⟨computed, computes, records⟩ := run_lift_bind_eq_ok_iff.mp ran
  exact ⟨computed, computes, returned_of_run_record records⟩

end Round
end RoundScoring
