import RoundScoring.Proofs.Rounds.Counting
import RoundScoring.Proofs.Rounds.Parts
import RoundScoring.Proofs.Staying

/-!
Rounds on a keeper without an outage. There every call goes through: what the ledger knows is read,
and scores are inserted wherever their keys are free. So the reputers' part of a round returns when
its consensus can be computed, no coefficient is refused, and no score of its block is kept yet. With
an outage it depends on how many scores there are as well (`Keeper.exists_run_forM_insertScore_iff`).
-/

namespace RoundScoring

namespace Keeper

variable {R : Type} [Scalar R] {α β : Type} {keeper : Keeper R}

section Calls

variable (working : keeper.outage = none)

include working

theorem run_transaction_of_working {body : Keeping R α} {a : α} {after : Keeper R}
    (done : keeper.run body = (.ok a, after)) : keeper.run (transaction body) = (.ok a, after) :=
  run_transaction_of_ok (run_attempt_of_none working _) done

theorem run_transaction_error_of_working {body : Keeping R α} {fault : Fault R} {after : Keeper R}
    (failed : keeper.run body = (.error fault, after)) :
    keeper.run (transaction body) = (.error fault, { after with ledger := keeper.ledger }) := by
  unfold transaction
  rw [run_bind, run_attempt_of_none working]
  dsimp only
  rw [run_undoing, failed]

theorem run_readStake_of_working {topic : Int} {reputer : Address} {stake : R}
    (known : keeper.ledger.stakes.get? (topic, reputer) = some stake) :
    keeper.run (readStake topic reputer) = (.ok stake, keeper) := by
  rw [run_readStake, run_attempt_of_none working]
  simp only [known]

theorem run_readCoefficient_of_working (topic : Int) (reputer : Address) :
    keeper.run (readCoefficient topic reputer) =
      (.ok (keeper.ledger.coefficient topic reputer), keeper) := by
  unfold readCoefficient
  rw [run_bind, run_attempt_of_none working]
  rfl

theorem run_readRoster_of_working {topic : Int} {roster : OrderedSet Address}
    (known : keeper.ledger.rosters.get? topic = some roster) :
    keeper.run (readRoster topic) = (.ok roster, keeper) := by
  unfold readRoster
  rw [run_bind, run_attempt_of_none working]
  simp only [run_bind, run_readLedger, known, run_pure]

theorem exists_run_writeCoefficient (topic : Int) (reputer : Address) {value : R}
    (nonneg : 0 ≤ value) :
    ∃ after, keeper.run (writeCoefficient topic reputer value) = (.ok (), after) ∧
      after.outage = none := by
  unfold writeCoefficient
  rw [dif_pos nonneg, run_bind, run_attempt_of_none working]
  exact ⟨_, rfl, working⟩

end Calls

theorem run_mapM_of_forall₂ {step : α → Keeping R β} {as : List α} {bs : List β}
    (each : List.Forall₂ (fun a b => keeper.run (step a) = (.ok b, keeper)) as bs) :
    keeper.run (as.mapM step) = (.ok bs, keeper) := by
  induction each with
  | nil => rfl
  | cons head _ ih =>
    rw [List.mapM_cons]
    exact run_bind_eq_ok_iff.mpr ⟨_, _, head, run_bind_eq_ok_iff.mpr ⟨_, _, ih, rfl⟩⟩

theorem exists_run_forM_writeCoefficient (topic : Int) {entries : List (Address × R)}
    (nonneg : ∀ entry ∈ entries, 0 ≤ entry.2) (working : keeper.outage = none) :
    ∃ after, keeper.run (entries.forM fun (reputer, coefficient) =>
      writeCoefficient topic reputer coefficient) = (.ok (), after) ∧ after.outage = none := by
  induction entries generalizing keeper with
  | nil => exact ⟨keeper, rfl, working⟩
  | cons entry entries ih =>
    obtain ⟨between, writes, working⟩ :=
      exists_run_writeCoefficient working topic entry.1 (nonneg entry List.mem_cons_self)
    obtain ⟨after, rest, working⟩ := ih (fun e inside => nonneg e (List.mem_cons_of_mem _ inside)) working
    exact ⟨after, run_bind_eq_ok_iff.mpr ⟨_, between, writes, rest⟩, working⟩

/-- An outage, if there is one, lets so many more calls of a kind through. -/
def Spares (keeper : Keeper R) (call : Call) (n : ℕ) : Prop :=
  ∀ outage ∈ keeper.outage, outage.call = call → n ≤ outage.spared

theorem spares_of_working (working : keeper.outage = none) (call : Call) (n : ℕ) :
    keeper.Spares call n := by
  intro outage broken
  rw [working] at broken
  cases broken

theorem exists_run_attempt_iff {call : Call} {n : ℕ} :
    (∃ asked, keeper.run (attempt call) = (.ok (), asked) ∧ asked.Spares call n) ↔
      keeper.Spares call (n + 1) := by
  rw [run_attempt]
  cases out : keeper.outage with
  | none =>
    exact iff_of_true ⟨keeper, rfl, spares_of_working out call n⟩ (spares_of_working out call _)
  | some outage =>
    have only : ∀ m, keeper.Spares call m ↔ (outage.call = call → m ≤ outage.spared) := by
      intro m
      unfold Spares
      simp [out]
    rw [only]
    obtain ⟨kind, spared, exception, message⟩ := outage
    dsimp only at only ⊢
    by_cases same : kind = call
    · rw [if_pos same]
      cases spared with
      | zero => simp [same]
      | succ fewer =>
        constructor
        · rintro ⟨asked, asks, spares⟩ -
          cases asks
          exact Nat.succ_le_succ (spares _ rfl same)
        · intro enough
          refine ⟨_, rfl, ?_⟩
          rintro _ ⟨⟩ -
          exact Nat.le_of_succ_le_succ (enough same)
    · rw [if_neg same]
      exact iff_of_true ⟨keeper, rfl, (only n).mpr fun equal => absurd equal same⟩
        fun equal => absurd equal same

theorem run_insertScore_eq_ok_iff {kind : ScoreKind} {topic block : Int} {score : Score R}
    {after : Keeper R} :
    keeper.run (insertScore kind topic block score) = (.ok (), after) ↔
      ∃ asked, keeper.run (attempt (.insertScore kind)) = (.ok (), asked) ∧
        ScoreKey.of topic block score ∉ (keeper.ledger.scores kind).keys ∧
        after = { asked with
          ledger := keeper.ledger.withScores kind
            ((keeper.ledger.scores kind).put (ScoreKey.of topic block score) score) } := by
  constructor
  · intro ran
    obtain ⟨absent, -⟩ := run_insertScore_eq_ok ran
    obtain ⟨_, asked, asks, -⟩ := run_bind_eq_ok_iff.mp ran
    have same := (keepsLedger_attempt _).of_run asks
    rw [run_insertScore_of_absent asks (same.symm ▸ absent), same] at ran
    cases ran
    exact ⟨asked, asks, absent, rfl⟩
  · rintro ⟨asked, asks, absent, rfl⟩
    have same := (keepsLedger_attempt _).of_run asks
    rw [run_insertScore_of_absent asks (same.symm ▸ absent), same]
    rfl

/-- Scores are all inserted just when the keeper lets so many of them, and their keys are free and
differ from each other; so their order does not matter. -/
theorem exists_run_forM_insertScore_iff {kind : ScoreKind} {topic block : Int}
    {scores : List (Score R)} :
    (∃ after, keeper.run (scores.forM (insertScore kind topic block)) = (.ok (), after)) ↔
      keeper.Spares (.insertScore kind) scores.length ∧
        (∀ s ∈ scores, ScoreKey.of topic block s ∉ (keeper.ledger.scores kind).keys) ∧
        (scores.map (ScoreKey.of topic block)).Nodup := by
  induction scores generalizing keeper with
  | nil => exact iff_of_true ⟨keeper, rfl⟩ ⟨fun _ _ _ => Nat.zero_le _, by simp, by simp⟩
  | cons score scores ih =>
    have grown : ∀ key, key ∈ ((keeper.ledger.withScores kind ((keeper.ledger.scores kind).put
        (ScoreKey.of topic block score) score)).scores kind).keys ↔
          key ∈ (keeper.ledger.scores kind).keys ∨ key = ScoreKey.of topic block score := by
      intro key
      rw [Ledger.scores_withScores, if_pos rfl, Table.mem_keys_put]
    rw [List.map_cons, List.nodup_cons, List.forall_mem_cons, List.length_cons,
      ← exists_run_attempt_iff]
    constructor
    · rintro ⟨after, ran⟩
      obtain ⟨_, between, inserts, rest⟩ := run_bind_eq_ok_iff.mp ran
      obtain ⟨asked, asks, absent, rfl⟩ := run_insertScore_eq_ok_iff.mp inserts
      obtain ⟨spares, free, distinct⟩ := ih.mp ⟨after, rest⟩
      simp only [grown, not_or] at free
      refine ⟨⟨asked, asks, spares⟩, ⟨absent, fun s inside => (free s inside).1⟩, ?_, distinct⟩
      intro repeated
      obtain ⟨s, inside, same⟩ := List.mem_map.mp repeated
      exact (free s inside).2 same
    · rintro ⟨⟨asked, asks, spares⟩, ⟨absent, free⟩, fresh, distinct⟩
      obtain ⟨between, inserts, wrote, left⟩ : ∃ between : Keeper R,
          keeper.run (insertScore kind topic block score) = (.ok (), between) ∧
          between.ledger = keeper.ledger.withScores kind
            ((keeper.ledger.scores kind).put (ScoreKey.of topic block score) score) ∧
          between.outage = asked.outage :=
        ⟨_, run_insertScore_eq_ok_iff.mpr ⟨asked, asks, absent, rfl⟩, rfl, rfl⟩
      have later : ∀ s ∈ scores, ScoreKey.of topic block s ∉ (between.ledger.scores kind).keys := by
        intro s inside
        rw [wrote, grown, not_or]
        exact ⟨free s inside, fun same => fresh (List.mem_map.mpr ⟨s, inside, same⟩)⟩
      have still : between.Spares (.insertScore kind) scores.length := by
        intro outage broken
        rw [left] at broken
        exact spares outage broken
      obtain ⟨after, rest⟩ := ih.mpr ⟨still, later, distinct⟩
      exact ⟨after, run_bind_eq_ok_iff.mpr ⟨_, between, inserts, rest⟩⟩

theorem exists_run_forM_insertScore {kind : ScoreKind} {topic block : Int} {scores : List (Score R)}
    (free : ∀ s ∈ scores, ScoreKey.of topic block s ∉ (keeper.ledger.scores kind).keys)
    (distinct : (scores.map (ScoreKey.of topic block)).Nodup) (working : keeper.outage = none) :
    ∃ after, keeper.run (scores.forM (insertScore kind topic block)) = (.ok (), after) ∧
      after.outage = none := by
  obtain ⟨after, ran⟩ := exists_run_forM_insertScore_iff.mpr
    ⟨spares_of_working working _ _, free, distinct⟩
  have still := staysWorking_forM (staysWorking_insertScore kind topic block) scores keeper working
  rw [ran] at still
  exact ⟨after, ran, still⟩

end Keeper

open Keeper

variable {R : Type} [Scalar R]

def Ledger.Unscored (ledger : Ledger R) (kind : ScoreKind) (topic block : Int) : Prop :=
  ∀ key ∈ (ledger.scores kind).keys, ¬(key.topic = topic ∧ key.block = block)

theorem Ledger.Unscored.free {ledger : Ledger R} {kind : ScoreKind} {topic block : Int}
    (unscored : ledger.Unscored kind topic block) (score : Score R) :
    ScoreKey.of topic block score ∉ (ledger.scores kind).keys :=
  fun taken => unscored _ taken ⟨rfl, rfl⟩

theorem Address.eq_of_text_eq {required : Option String} {a b : Address}
    (readA : parse required a.text = .ok a) (readB : parse required b.text = .ok b)
    (same : a.text = b.text) : a = b := by
  rw [same, readB] at readA
  cases readA
  rfl

omit [Scalar R] in
theorem nodup_scoreKeys {required : Option String} {topic block : Int} {accounts : List Address}
    {scores : List (Score R)} (own : scores.map Score.account = accounts.map Address.text)
    (readable : ∀ a ∈ accounts, Address.parse required a.text = .ok a) (distinct : accounts.Nodup) :
    (scores.map (ScoreKey.of topic block)).Nodup := by
  have texts : (scores.map Score.account).Nodup := by
    rw [own]
    exact distinct.map_on fun a insideA b insideB =>
      Address.eq_of_text_eq (readable a insideA) (readable b insideB)
  have keys : scores.map (ScoreKey.of topic block) =
      (scores.map Score.account).map fun account => ⟨topic, block, account⟩ := by
    rw [List.map_map]
    rfl
  rw [keys]
  exact texts.map fun a b same => congrArg ScoreKey.account same

omit [Scalar R] in
theorem nodup_scoreKeys_of_valuesFor {required : Option String} {topic block : Int}
    {network : Bundle R} {category : WorkerCategory} {values : Table Address R}
    {scores : List (Score R)} (read : network.valuesFor required category = .ok values)
    (own : scores.map Score.account = values.keys.map Address.text) :
    (scores.map (ScoreKey.of topic block)).Nodup := by
  have readable : ∀ worker ∈ values.keys, Address.parse required worker.text = .ok worker := by
    intro worker inside
    obtain ⟨text, parsed⟩ := Bundle.parsed_of_valuesFor read inside
    exact Address.parse_text parsed
  exact nodup_scoreKeys own readable values.distinct

namespace Round

section Returning

variable {policy : Policy R} {topic block : Int} {submissions : List (Submission R)}
  {consensus : Consensus R} {reputers : List (Address × Bundle R)} {roster : OrderedSet Address}
  {reports : List (Consensus.Report R)} {keeper : Keeper R} (working : keeper.outage = none)

include working

theorem run_readReport_of_reported {reputer : Address} {bundle : Bundle R}
    {report : Consensus.Report R}
    (reported : Reported policy topic keeper.ledger roster (reputer, bundle) report) :
    keeper.run (readReport policy topic roster reputer bundle) = (.ok report, keeper) := by
  obtain ⟨stake, coefficient, coverage⟩ := reported
  refine run_bind_eq_ok_iff.mpr ⟨_, _, run_readStake_of_working working stake, ?_⟩
  refine run_bind_eq_ok_iff.mpr ⟨_, _, run_readCoefficient_of_working working topic reputer, ?_⟩
  refine run_bind_eq_ok_iff.mpr ⟨report.coverage, keeper, by rw [run_lift, coverage], ?_⟩
  rw [← coefficient]
  rfl

theorem run_consensus_of_computed
    (computed : Computed policy topic submissions keeper.ledger consensus reputers roster reports) :
    keeper.run (Round.consensus policy topic submissions) = (.ok consensus, keeper) := by
  obtain ⟨read, known, reported, aggregated⟩ := computed
  refine run_bind_eq_ok_iff.mpr ⟨reputers, keeper, by rw [run_lift, read], ?_⟩
  refine run_bind_eq_ok_iff.mpr ⟨roster, keeper, run_readRoster_of_working working known, ?_⟩
  refine run_bind_eq_ok_iff.mpr ⟨reports, keeper, ?_, by rw [run_lift, aggregated]⟩
  exact run_mapM_of_forall₂ (reported.imp fun _ _ => run_readReport_of_reported working)

/-- The reputers' part of a round. Whatever it finds of the ledger, only a coefficient below zero or a
score that is kept already can stop it once its consensus is computed. -/
theorem exists_run_scoreReputers
    (computed : Computed policy topic submissions keeper.ledger consensus reputers roster reports)
    (nonneg : ∀ entry ∈ consensus.coefficients.entries, 0 ≤ entry.2)
    (unscored : keeper.ledger.Unscored .reputer topic block) :
    ∃ after, keeper.run (scoreReputers policy topic block submissions) =
        (.ok ⟨reputerScores topic block consensus, consensus⟩, after) ∧ after.outage = none := by
  obtain ⟨listened, listens, still⟩ := exists_run_forM_writeCoefficient topic nonneg working
  obtain ⟨-, rest⟩ := relistened_of_run_forM listens
  have free : ∀ s ∈ reputerScores topic block consensus,
      ScoreKey.of topic block s ∉ (listened.ledger.scores .reputer).keys := by
    intro s _
    rw [rest]
    exact unscored.free s
  have own : (reputerScores topic block consensus).map Score.account =
      consensus.participants.map Address.text := by
    unfold reputerScores Consensus.participants Table.keys
    rw [List.map_map, List.map_map]
    rfl
  have distinct : ((reputerScores topic block consensus).map (ScoreKey.of topic block)).Nodup :=
    nodup_scoreKeys own (fun _ => computed.readable) consensus.scores.distinct
  obtain ⟨after, inserts, still⟩ := exists_run_forM_insertScore free distinct still
  have wrote : keeper.run (transaction do
      consensus.coefficients.entries.forM fun (reputer, coefficient) =>
        writeCoefficient topic reputer coefficient
      (reputerScores topic block consensus).forM (insertScore .reputer topic block)) =
        (.ok (), after) :=
    run_transaction_of_working working (run_bind_eq_ok_iff.mpr ⟨_, _, listens, inserts⟩)
  refine ⟨after, run_bind_eq_ok_iff.mpr ⟨_, _, run_consensus_of_computed working computed, ?_⟩, still⟩
  exact run_bind_eq_ok_iff.mpr ⟨_, _, wrote, rfl⟩

theorem exists_run_record {kind : ScoreKind} {scores : Option (List (Score R))}
    (unscored : keeper.ledger.Unscored kind topic block)
    (distinct : ((scores.getD []).map (ScoreKey.of topic block)).Nodup) :
    ∃ after, keeper.run (record kind topic block scores) = (.ok (scores.getD []), after) ∧
      after.outage = none := by
  cases scores with
  | none => exact ⟨keeper, rfl, working⟩
  | some scores =>
    obtain ⟨after, inserts, still⟩ :=
      exists_run_forM_insertScore (fun score _ => unscored.free score) distinct working
    have written := run_transaction_of_working working inserts
    exact ⟨after, run_bind_eq_ok_iff.mpr ⟨_, _, written, rfl⟩, still⟩

end Returning

end Round
end RoundScoring
