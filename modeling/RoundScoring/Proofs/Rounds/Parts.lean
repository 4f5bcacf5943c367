import RoundScoring.Proofs.Consensus.Aggregate
import RoundScoring.Proofs.Rounds.Effect
import RoundScoring.Proofs.Rounds.Reading
import RoundScoring.Proofs.Rounds.Workers

/-!
The parts of a round, each on its own. A part that fails leaves the ledger as it was. A part that
returns has written what it returns: reputers' coefficients and scores, or the scores of inferers, or
those of forecasters.
-/

namespace RoundScoring

open Keeper

variable {R : Type} [Scalar R]

section Writing

theorem recorded_of_run_forM {kind : ScoreKind} {topic block : Int} {scores : List (Score R)}
    {keeper after : Keeper R} (placed : ∀ s ∈ scores, s.topic = topic ∧ s.block = block)
    (ran : keeper.run (scores.forM (insertScore kind topic block)) = (.ok (), after)) :
    Recorded kind topic block scores keeper.ledger after.ledger := by
  induction scores generalizing keeper with
  | nil =>
    cases ran
    exact .refl kind topic block _
  | cons score scores ih =>
    obtain ⟨_, between, inserts, rest⟩ := run_bind_eq_ok_iff.mp ran
    obtain ⟨free, wrote⟩ := run_insertScore_eq_ok inserts
    have later := ih (fun s inside => placed s (List.mem_cons_of_mem _ inside)) rest
    have grown : (between.ledger.scores kind).entries =
        (keeper.ledger.scores kind).entries ++ [(ScoreKey.of topic block score, score)] := by
      rw [wrote, Ledger.scores_withScores, if_pos rfl]
      exact Table.entries_put_of_absent free
    refine ⟨.of_entries ?_ placed, ?_⟩
    · rw [later.gained.entries, grown]
      simp
    · rw [later.rest, wrote, Ledger.withScores_withScores, Ledger.scores_withScores, if_pos rfl]

theorem Relistened.cons {topic : Int} {reputer : Address} {value : R} {nonneg : 0 ≤ value}
    {es : List (Address × R)} {distinct : (((reputer, value) :: es).map Prod.fst).Nodup}
    {before after : Table (Int × Address) (Coefficient R)}
    (later : Relistened topic ⟨es, (List.nodup_cons.mp distinct).2⟩
      (before.put (topic, reputer) ⟨value, nonneg⟩) after) :
    Relistened topic ⟨(reputer, value) :: es, distinct⟩ before after := by
  have fresh : reputer ∉ es.map Prod.fst := (List.nodup_cons.mp distinct).1
  obtain ⟨values, keys⟩ := later
  change ∀ t r, _ = if t = topic ∧ r ∈ es.map Prod.fst then es.lookup r else _ at values
  change _ = _ ++ ((es.map Prod.fst).map _).filter _ at keys
  constructor
  · intro t r
    change _ = if t = topic ∧ r ∈ reputer :: es.map Prod.fst
      then List.lookup r ((reputer, value) :: es) else _
    rw [values t r, Table.get?_put, Table.lookup_entry]
    by_cases own : t = topic ∧ r = reputer
    · obtain ⟨rfl, rfl⟩ := own
      rw [if_neg fun both => fresh both.2, if_pos rfl, if_pos ⟨rfl, List.mem_cons_self⟩, if_pos rfl]
      rfl
    · have apart : (t, r) ≠ (topic, reputer) := by simpa using own
      by_cases given : t = topic ∧ r ∈ es.map Prod.fst
      · have other : r ≠ reputer := fun same => own ⟨given.1, same⟩
        rw [if_pos given, if_pos ⟨given.1, List.mem_cons_of_mem _ given.2⟩, if_neg other]
      · have still : ¬(t = topic ∧ r ∈ reputer :: es.map Prod.fst) := by
          rintro ⟨here, inside⟩
          rcases List.mem_cons.mp inside with same | inside
          · exact own ⟨here, same⟩
          · exact given ⟨here, inside⟩
        rw [if_neg given, if_neg apart, if_neg still]
  · change _ = before.keys ++ (((reputer :: es.map Prod.fst).map _).filter _)
    rw [keys, Table.keys_put]
    split
    next known => simp [known]
    next unknown =>
      rw [List.map_cons, List.filter_cons_of_pos (by simpa using unknown), List.append_assoc,
        List.singleton_append]
      congr 2
      refine List.filter_congr fun key inside => ?_
      obtain ⟨other, member, rfl⟩ := List.mem_map.mp inside
      have different : other ≠ reputer := fun same => fresh (same ▸ member)
      simp [different]

theorem relistened_of_run_forM {topic : Int} {given : Table Address R} {keeper after : Keeper R}
    (ran : keeper.run (given.entries.forM fun (reputer, coefficient) =>
      writeCoefficient topic reputer coefficient) = (.ok (), after)) :
    Relistened topic given keeper.ledger.coefficients after.ledger.coefficients ∧
      after.ledger = { keeper.ledger with coefficients := after.ledger.coefficients } := by
  obtain ⟨es, distinct⟩ := given
  induction es generalizing keeper with
  | nil =>
    cases ran
    refine ⟨⟨?_, ?_⟩, rfl⟩ <;> simp [Table.keys]
  | cons e es ih =>
    obtain ⟨_, between, writes, rest⟩ := run_bind_eq_ok_iff.mp ran
    obtain ⟨nonneg, wrote⟩ := run_writeCoefficient_eq_ok writes
    obtain ⟨later, same⟩ := ih (List.nodup_cons.mp distinct).2 rest
    rw [wrote] at later same
    exact ⟨later.cons, same⟩

end Writing

section Parts

theorem allOrNothing_scoreReputers (policy : Policy R) (topic block : Int)
    (submissions : List (Round.Submission R)) :
    AllOrNothing (Round.scoreReputers policy topic block submissions) :=
  (Round.keepsLedger_consensus _ _ _).bind_allOrNothing fun _ => (allOrNothing_transaction _).bind_pure _

theorem allOrNothing_record (kind : ScoreKind) (topic block : Int)
    (scores : Option (List (Score R))) : AllOrNothing (Round.record kind topic block scores) := by
  cases scores with
  | none => exact (keepsLedger_pure []).allOrNothing
  | some scores => exact (allOrNothing_transaction _).bind_pure _

theorem allOrNothing_scoreInferers (policy : Policy R) (topic block : Int) (strict : Bool)
    (network : Bundle R) : AllOrNothing (Round.scoreInferers policy topic block strict network) :=
  (keepsLedger_lift _).bind_allOrNothing fun _ => allOrNothing_record _ _ _ _

theorem allOrNothing_scoreForecasters (policy : Policy R) (topic block : Int) (strict : Bool)
    (network : Bundle R) : AllOrNothing (Round.scoreForecasters policy topic block strict network) :=
  (keepsLedger_lift _).bind_allOrNothing fun _ => allOrNothing_record _ _ _ _

theorem reputersEffect_of_run {policy : Policy R} {topic block : Int}
    {submissions : List (Round.Submission R)} {scored : Round.ReputerScores R}
    {keeper after : Keeper R}
    (ran : keeper.run (Round.scoreReputers policy topic block submissions) = (.ok scored, after)) :
    ReputersEffect topic block scored keeper.ledger after.ledger := by
  obtain ⟨consensus, computed, computes, rest⟩ := run_bind_eq_ok_iff.mp ran
  have same := (Round.keepsLedger_consensus _ _ _).of_run computes
  obtain ⟨_, _, _, origin⟩ := Round.computed_of_run computes
  obtain ⟨_, written, writes, packed⟩ := run_bind_eq_ok_iff.mp rest
  cases packed
  obtain ⟨opened, unchanged, done⟩ := run_transaction_eq_ok writes
  obtain ⟨_, listened, listens, inserts⟩ := run_bind_eq_ok_iff.mp done
  obtain ⟨coefficients, onlyThose⟩ := relistened_of_run_forM listens
  have placed : ∀ s ∈ Round.reputerScores topic block consensus, s.topic = topic ∧ s.block = block := by
    intro s inside
    obtain ⟨e, _, rfl⟩ := List.mem_map.mp inside
    exact ⟨rfl, rfl⟩
  obtain ⟨gained, onlyThese⟩ := recorded_of_run_forM placed inserts
  rw [unchanged.trans same] at coefficients onlyThose
  rw [onlyThose] at gained onlyThese
  rw [onlyThese]
  exact {
    participants := Consensus.keys_coefficients_of_aggregate origin.aggregated
    coefficients
    scores := gained
    rest := rfl }

theorem recorded_of_run_record {kind : ScoreKind} {topic block : Int}
    {scores : Option (List (Score R))} {returned : List (Score R)} {keeper after : Keeper R}
    (placed : ∀ written ∈ scores, ∀ s ∈ written, s.topic = topic ∧ s.block = block)
    (ran : keeper.run (Round.record kind topic block scores) = (.ok returned, after)) :
    Recorded kind topic block returned keeper.ledger after.ledger := by
  cases scores with
  | none =>
    cases ran
    exact .refl kind topic block _
  | some scores =>
    obtain ⟨_, _, writes, packed⟩ := run_bind_eq_ok_iff.mp ran
    cases packed
    obtain ⟨opened, unchanged, inserts⟩ := run_transaction_eq_ok writes
    rw [← unchanged]
    exact recorded_of_run_forM (placed _ rfl) inserts

theorem recorded_of_run_scoreInferers {policy : Policy R} {topic block : Int} {strict : Bool}
    {network : Bundle R} {scores : List (Score R)} {keeper after : Keeper R}
    (ran : keeper.run (Round.scoreInferers policy topic block strict network) = (.ok scores, after)) :
    Recorded .inference topic block scores keeper.ledger after.ledger := by
  obtain ⟨_, computes, records⟩ := run_lift_bind_eq_ok_iff.mp ran
  exact recorded_of_run_record (Round.placed_of_inferenceScores computes) records

theorem recorded_of_run_scoreForecasters {policy : Policy R} {topic block : Int} {strict : Bool}
    {network : Bundle R} {scores : List (Score R)} {keeper after : Keeper R}
    (ran : keeper.run (Round.scoreForecasters policy topic block strict network) =
      (.ok scores, after)) :
    Recorded .forecast topic block scores keeper.ledger after.ledger := by
  obtain ⟨_, computes, records⟩ := run_lift_bind_eq_ok_iff.mp ran
  exact recorded_of_run_record (Round.placed_of_forecastScores computes) records

end Parts

end RoundScoring
