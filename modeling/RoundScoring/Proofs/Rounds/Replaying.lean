import RoundScoring.Proofs.Consensus.Bounds
import RoundScoring.Proofs.Rounds.History
import RoundScoring.Proofs.Rounds.Returning
import RoundScoring.Proofs.Staying

/-!
Rounds asked for again. Between two askings for the same round only coefficients and scores have
changed. Coefficients have no part in who takes part, so the same reputers do; and each of them was
given a score the first time, so inserting the first of them fails. Where nobody takes part, all scores
were the workers', from a network bundle that was given and so is the same again.
-/

namespace RoundScoring

open Keeper

namespace Consensus

variable {config : Config ℝ} {reports reports' : List (Report ℝ)} {consensus : Consensus ℝ}

theorem SameButCoefficients.taking (same : SameButCoefficients reports reports') :
    SameButCoefficients (taking reports) (taking reports') := by
  have filtered : ∀ reports : List (Report ℝ),
      (Consensus.taking reports).map (fun report => (report.coverage, report.stake)) =
        (reports.map fun report => (report.coverage, report.stake)).filter fun entry =>
          Report.takesPart ⟨entry.1, entry.2, 0⟩ := by
    intro reports
    rw [List.filter_map]
    rfl
  unfold SameButCoefficients at same ⊢
  rw [filtered, filtered, same]

theorem SameButCoefficients.checkStakes (same : SameButCoefficients reports reports')
    (stakes : checkStakes reports = .ok ()) : checkStakes reports' = .ok () := by
  obtain ⟨nonneg, positive⟩ := checkStakes_eq_ok_iff.mp stakes
  refine checkStakes_eq_ok_iff.mpr ⟨?_, same.map_stake ▸ positive⟩
  rw [← List.forall_mem_map (f := Report.stake) (P := fun stake => 0 ≤ stake)] at nonneg ⊢
  rw [same.map_stake]
  exact nonneg

theorem exists_aggregate_of_same (same : SameButCoefficients reports reports')
    (returned : aggregate config reports = .ok consensus) :
    ∃ consensus', aggregate config reports' = .ok consensus' ∧
      ∀ reputer, reputer ∈ consensus'.participants ↔ reputer ∈ consensus.participants := by
  have again : ∃ consensus', aggregate config reports' = .ok consensus' := by
    by_cases nobody : Consensus.taking reports' = []
    · exact ⟨_, aggregate_of_nobody nobody⟩
    · have somebody : Consensus.taking reports ≠ [] := by
        intro empty
        have taking := same.taking
        unfold SameButCoefficients at taking
        rw [empty, List.map_nil, List.map_eq_nil_iff] at taking
        exact nobody taking
      obtain ⟨_, _, _, concluded⟩ := concluded_of_aggregate somebody returned
      exact ⟨_, aggregate_of_stakes config nobody (same.taking.checkStakes concluded.stakes)⟩
  obtain ⟨consensus', returned'⟩ := again
  refine ⟨consensus', returned', fun reputer => ?_⟩
  have reputers : ∀ reports : List (Report ℝ), (∃ report ∈ Consensus.taking reports,
      report.reputer = reputer) ↔ ∃ coverage ∈ (Consensus.taking reports).map Report.coverage,
        coverage.reputer = reputer := by
    intro reports
    simp only [List.mem_map, exists_exists_and_eq_and]
    rfl
  rw [mem_participants_of_aggregate returned, mem_participants_of_aggregate returned', reputers,
    reputers, same.taking.map_coverage]

end Consensus

theorem Round.Computed.again {policy : Policy ℝ} {topic : Int}
    {submissions : List (Round.Submission ℝ)} {ledger ledger' : Ledger ℝ} {consensus : Consensus ℝ}
    {reputers : List (Address × Bundle ℝ)} {roster : OrderedSet Address}
    {reports : List (Consensus.Report ℝ)}
    (computed : Computed policy topic submissions ledger consensus reputers roster reports)
    (stakes : ledger'.stakes = ledger.stakes) (rosters : ledger'.rosters = ledger.rosters) :
    ∃ consensus' reports',
      Computed policy topic submissions ledger' consensus' reputers roster reports' ∧
      ∀ reputer, reputer ∈ consensus'.participants ↔ reputer ∈ consensus.participants := by
  obtain ⟨read, known, reported, aggregated⟩ := computed
  let relistened := fun report : Consensus.Report ℝ =>
    report.withCoefficient (ledger'.coefficient topic report.reputer)
  have same : Consensus.SameButCoefficients reports (reports.map relistened) := by
    unfold Consensus.SameButCoefficients
    rw [List.map_map]
    rfl
  obtain ⟨consensus', aggregated', participants⟩ :=
    Consensus.exists_aggregate_of_same same aggregated
  refine ⟨consensus', _, ⟨read, rosters ▸ known, ?_, aggregated'⟩, participants⟩
  refine List.forall₂_map_right_iff.mpr (reported.imp fun reputer report found => ?_)
  obtain ⟨stake, -, coverage⟩ := found
  have named : report.reputer = reputer.1 := Coverage.reputer_of_filter coverage
  exact ⟨stakes ▸ stake, congrArg (ledger'.coefficient topic) named, coverage⟩

namespace Keeper

variable {R : Type} [Scalar R] {α β : Type} {keeper : Keeper R}

theorem run_bind_eq_error {work : Keeping R α} {next : α → Keeping R β} {fault : Fault R}
    (failed : (keeper.run work).1 = .error fault) :
    (keeper.run (work >>= next)).1 = .error fault := by
  rw [run_bind]
  split
  next ran =>
    rw [ran] at failed
    cases failed
  next ran =>
    rw [ran] at failed
    cases failed
    rfl

theorem run_bind_of_ok {work : Keeping R α} {next : α → Keeping R β} {a : α} {between : Keeper R}
    (ran : keeper.run work = (.ok a, between)) :
    keeper.run (work >>= next) = between.run (next a) := by
  rw [run_bind, ran]

theorem run_transaction_eq_error_of_opened {opened : Keeper R} {body : Keeping R α}
    {fault : Fault R} (opens : keeper.run (attempt .openTransaction) = (.ok (), opened))
    (failed : (opened.run body).1 = .error fault) :
    (keeper.run (transaction body)).1 = .error fault := by
  unfold transaction
  rw [run_bind_of_ok opens, run_undoing]
  split
  next ran =>
    rw [ran] at failed
    cases failed
  next ran =>
    rw [ran] at failed
    exact failed

variable (working : keeper.outage = none)

include working

theorem run_transaction_eq_error {body : Keeping R α} {fault : Fault R}
    (failed : (keeper.run body).1 = .error fault) :
    (keeper.run (transaction body)).1 = .error fault :=
  run_transaction_eq_error_of_opened (run_attempt_of_none working _) failed

theorem run_insertScore_of_recorded {kind : ScoreKind} {topic block : Int} {score : Score R}
    (recorded : ScoreKey.of topic block score ∈ (keeper.ledger.scores kind).keys) :
    keeper.run (insertScore kind topic block score) =
      (.error (.scoreRecorded kind score.account topic block), keeper) := by
  unfold ScoreKey.of at recorded
  unfold insertScore
  rw [run_bind_of_ok (run_attempt_of_none working _), run_bind_of_ok (run_readLedger keeper)]
  dsimp only
  rw [if_pos recorded]
  rfl

theorem exists_run_forM_of_recorded {kind : ScoreKind} {topic block : Int} {scores : List (Score R)}
    (filled : scores ≠ [])
    (recorded : ∀ s ∈ scores, ScoreKey.of topic block s ∈ (keeper.ledger.scores kind).keys) :
    ∃ account, (keeper.run (scores.forM (insertScore kind topic block))).1 =
      .error (.scoreRecorded kind account topic block) := by
  cases scores with
  | nil => exact absurd rfl filled
  | cons score rest =>
    have refused := run_insertScore_of_recorded working (recorded score List.mem_cons_self)
    exact ⟨score.account, run_bind_eq_error (congrArg Prod.fst refused)⟩

end Keeper

namespace Round

section Recorded

variable {R : Type} [Scalar R] {policy : Policy R} {topic block : Int}
  {submissions : List (Submission R)} {consensus : Consensus R}
  {reputers : List (Address × Bundle R)} {roster : OrderedSet Address}
  {reports : List (Consensus.Report R)} {keeper : Keeper R} (working : keeper.outage = none)

include working

theorem exists_run_scoreReputers_of_recorded
    (computed : Computed policy topic submissions keeper.ledger consensus reputers roster reports)
    (nonneg : ∀ entry ∈ consensus.coefficients.entries, 0 ≤ entry.2)
    (somebody : consensus.participants ≠ [])
    (recorded : ∀ reputer ∈ consensus.participants,
      (⟨topic, block, reputer.text⟩ : ScoreKey) ∈ (keeper.ledger.scores .reputer).keys) :
    ∃ account, (keeper.run (scoreReputers policy topic block submissions)).1 =
      .error (.scoreRecorded .reputer account topic block) := by
  obtain ⟨listened, listens, still⟩ := exists_run_forM_writeCoefficient topic nonneg working
  obtain ⟨-, rest⟩ := relistened_of_run_forM listens
  have known : ∀ s ∈ reputerScores topic block consensus,
      ScoreKey.of topic block s ∈ (listened.ledger.scores .reputer).keys := by
    intro s inside
    obtain ⟨entry, listed, rfl⟩ := List.mem_map.mp inside
    rw [rest]
    exact recorded entry.1 (List.mem_map_of_mem listed)
  have filled : reputerScores topic block consensus ≠ [] := by
    intro empty
    exact somebody (List.map_eq_nil_iff.mpr (List.map_eq_nil_iff.mp empty))
  obtain ⟨account, refused⟩ := exists_run_forM_of_recorded still filled known
  refine ⟨account, ?_⟩
  unfold scoreReputers
  rw [run_bind_of_ok (run_consensus_of_computed working computed)]
  refine run_bind_eq_error (run_transaction_eq_error working ?_)
  rw [run_bind_of_ok listens]
  exact refused

theorem run_scoreReputers_of_nobody
    (computed : Computed policy topic submissions keeper.ledger consensus reputers roster reports)
    (nobody : consensus.participants = []) :
    keeper.run (scoreReputers policy topic block submissions) = (.ok ⟨[], consensus⟩, keeper) := by
  have scores : consensus.scores.entries = [] := List.map_eq_nil_iff.mp nobody
  have coefficients : consensus.coefficients.entries = [] := by
    apply List.map_eq_nil_iff.mp
    exact (Consensus.keys_coefficients_of_aggregate computed.aggregated).trans nobody
  have none : reputerScores topic block consensus = [] := by
    unfold reputerScores
    rw [scores, List.map_nil]
  unfold scoreReputers
  rw [run_bind_of_ok (run_consensus_of_computed working computed)]
  dsimp only
  rw [none, coefficients]
  exact run_bind_eq_ok_iff.mpr ⟨(), keeper, run_transaction_of_working working rfl, rfl⟩

theorem run_record_of_nil {kind : ScoreKind} {scores : Option (List (Score R))}
    (none : scores.getD [] = []) :
    keeper.run (record kind topic block scores) = (.ok [], keeper) := by
  cases scores with
  | none => rfl
  | some scores =>
    cases none
    exact run_bind_of_ok (run_transaction_of_working working rfl)

theorem exists_run_record_of_recorded {kind : ScoreKind} {scores : Option (List (Score R))}
    (filled : scores.getD [] ≠ [])
    (recorded : ∀ s ∈ scores.getD [], ScoreKey.of topic block s ∈ (keeper.ledger.scores kind).keys) :
    ∃ account, (keeper.run (record kind topic block scores)).1 =
      .error (.scoreRecorded kind account topic block) := by
  cases scores with
  | none => exact absurd rfl filled
  | some scores =>
    obtain ⟨account, refused⟩ := exists_run_forM_of_recorded working filled recorded
    exact ⟨account, run_bind_eq_error (run_transaction_eq_error working refused)⟩

end Recorded

section Computed

variable {R : Type} [Scalar R] {policy : Policy R} {topic block : Int} {strict : Bool}
  {network : Bundle R} {scores : Option (List (Score R))}

theorem run_scoreInferers_of_scored (keeper : Keeper R)
    (scored : inferenceScores policy topic block strict network = .ok scores) :
    keeper.run (scoreInferers policy topic block strict network) =
      keeper.run (record .inference topic block scores) :=
  run_bind_of_ok (by rw [run_lift, scored])

theorem run_scoreForecasters_of_scored (keeper : Keeper R)
    (scored : forecastScores policy topic block strict network = .ok scores) :
    keeper.run (scoreForecasters policy topic block strict network) =
      keeper.run (record .forecast topic block scores) :=
  run_bind_of_ok (by rw [run_lift, scored])

end Computed

end Round

section Refusing

variable {R : Type} [Scalar R] {engine : Engine R} {topic block : Int}
  {submissions : List (Round.Submission R)} {given : Option (Bundle R)} {network : Bundle R}
  {consensus : Consensus R} {reputers : List (Address × Bundle R)} {roster : OrderedSet Address}
  {reports : List (Consensus.Report R)} (working : engine.keeper.outage = none)

include working

theorem scoreRound_eq_error {fault : Fault R}
    (failed : (engine.keeper.run (Round.score engine.policy topic block submissions given)).1 =
      .error fault) :
    (engine.scoreRound topic block submissions given).1 = .error fault := by
  have refused := run_transaction_eq_error working failed
  unfold Engine.scoreRound
  dsimp only
  split
  next ran =>
    rw [ran] at refused
    cases refused
  next ran =>
    rw [ran] at refused
    cases refused
    rfl

theorem exists_scoreRound_eq_error_of_somebody
    (computed : Round.Computed engine.policy topic submissions engine.keeper.ledger consensus reputers
      roster reports)
    (nonneg : ∀ entry ∈ consensus.coefficients.entries, 0 ≤ entry.2)
    (somebody : consensus.participants ≠ [])
    (recorded : ∀ reputer ∈ consensus.participants,
      (⟨topic, block, reputer.text⟩ : ScoreKey) ∈ (engine.keeper.ledger.scores .reputer).keys) :
    ∃ kind account, (engine.scoreRound topic block submissions given).1 =
      .error (.scoreRecorded kind account topic block) := by
  obtain ⟨account, refused⟩ :=
    Round.exists_run_scoreReputers_of_recorded working computed nonneg somebody recorded
  exact ⟨.reputer, account, scoreRound_eq_error working (run_bind_eq_error refused)⟩

theorem exists_scoreRound_eq_error_of_nobody
    (computed : Round.Computed engine.policy topic submissions engine.keeper.ledger consensus reputers
      roster reports)
    (nobody : consensus.participants = []) {inferences forecasts : Option (List (Score R))}
    (infers : Round.inferenceScores engine.policy topic block true network = .ok inferences)
    (forecast : Round.forecastScores engine.policy topic block true network = .ok forecasts)
    (filled : inferences.getD [] ≠ [] ∨ forecasts.getD [] ≠ [])
    (inferred : ∀ s ∈ inferences.getD [],
      ScoreKey.of topic block s ∈ (engine.keeper.ledger.scores .inference).keys)
    (forecasted : ∀ s ∈ forecasts.getD [],
      ScoreKey.of topic block s ∈ (engine.keeper.ledger.scores .forecast).keys) :
    ∃ kind account, (engine.scoreRound topic block submissions (some network)).1 =
      .error (.scoreRecorded kind account topic block) := by
  have rates : engine.keeper.run (Round.scoreReputers engine.policy topic block submissions) =
      (.ok ⟨[], consensus⟩, engine.keeper) :=
    Round.run_scoreReputers_of_nobody working computed nobody
  have infer := Round.run_scoreInferers_of_scored engine.keeper infers
  have cast := Round.run_scoreForecasters_of_scored engine.keeper forecast
  by_cases none : inferences.getD [] = []
  · rw [Round.run_record_of_nil working none] at infer
    obtain ⟨account, refused⟩ := Round.exists_run_record_of_recorded working
      (filled.resolve_left (not_not.mpr none)) forecasted
    rw [← cast] at refused
    refine ⟨.forecast, account, scoreRound_eq_error working ?_⟩
    unfold Round.score
    rw [run_bind_of_ok rates]
    dsimp only
    rw [run_bind_of_ok (run_pure _ _), Option.isSome_some, run_bind_of_ok infer]
    exact run_bind_eq_error refused
  · obtain ⟨account, refused⟩ := Round.exists_run_record_of_recorded working none inferred
    rw [← infer] at refused
    refine ⟨.inference, account, scoreRound_eq_error working ?_⟩
    unfold Round.score
    rw [run_bind_of_ok rates]
    dsimp only
    rw [run_bind_of_ok (run_pure _ _), Option.isSome_some]
    exact run_bind_eq_error refused

end Refusing

theorem scores_eq_none_of_nobody {R : Type} [Scalar R] {policy : Policy R} {topic block : Int}
    {reports : List (Consensus.Report R)} {consensus : Consensus R} {network : Bundle R}
    (returned : Consensus.aggregate policy.consensus reports = .ok consensus)
    (nobody : consensus.participants = []) (made : consensus.toBundle topic = .ok network) :
    Round.inferenceScores policy topic block false network = .ok none ∧
      Round.forecastScores policy topic block false network = .ok none := by
  have empty : Consensus.taking reports = [] := by
    refine List.eq_nil_iff_forall_not_mem.mpr fun report inside => ?_
    have takes := (Consensus.mem_participants_of_aggregate returned).mpr ⟨report, inside, rfl⟩
    rw [nobody] at takes
    cases takes
  rw [Consensus.aggregate_of_nobody empty] at returned
  cases returned
  cases made
  exact ⟨rfl, rfl⟩

/-- What stays of an engine, whatever is asked of it. -/
structure Engine.Later {R : Type} [Scalar R] (engine later : Engine R) : Prop where
  policy : later.policy = engine.policy
  working : engine.keeper.outage = none → later.keeper.outage = none
  grew : engine.keeper.ledger.Grew later.keeper.ledger

theorem Engine.Later.trans {R : Type} [Scalar R] {first second third : Engine R}
    (left : first.Later second) (right : second.Later third) : first.Later third :=
  ⟨right.policy.trans left.policy, right.working ∘ left.working, left.grew.trans right.grew⟩

theorem later_answer {R : Type} [Scalar R] (engine : Engine R) (request : Round.Request R) :
    engine.Later (engine.answer request).2 :=
  ⟨policy_of_scoreRound _ _ _ _ _, fun working => working_of_scoreRound working _ _ _ _,
    grew_of_answer engine request⟩

theorem later_after {R : Type} [Scalar R] (engine : Engine R) (requests : List (Round.Request R)) :
    engine.Later (engine.after requests) := by
  induction requests generalizing engine with
  | nil => exact ⟨rfl, id, .refl _⟩
  | cons request rest ih => exact (later_answer engine request).trans (ih _)

section Again

variable {engine now : Engine ℝ} {request : Round.Request ℝ} {round : RoundScores ℝ}
  (working : engine.keeper.outage = none) (returned : (engine.answer request).1 = .ok round)
  (later : (engine.answer request).2.Later now)

include returned later

theorem recorded_of_answered (kind : ScoreKind) :
    ∀ s ∈ round.scores kind,
      ScoreKey.of request.topic request.block s ∈ (now.keeper.ledger.scores kind).keys := by
  intro s inside
  obtain ⟨⟨topic, block⟩, effect, -⟩ := answered_of_answer returned
  have kept := later.grew.mem_keys ((effect.gained kind).mem_keys inside)
  rwa [topic, block] at kept

theorem exists_computed_again :
    ∃ consensus reputers roster reports,
      Round.Computed now.policy request.topic request.submissions now.keeper.ledger consensus reputers
        roster reports ∧
      ∀ reputer, reputer ∈ consensus.participants ↔ reputer ∈ round.consensus.participants := by
  obtain ⟨opened, _, _, same, first, -, -⟩ :=
    scored_of_scoreRound (Prod.ext returned rfl :
      engine.answer request = (.ok round, (engine.answer request).2))
  have whole := (later_answer engine request).trans later
  obtain ⟨reputers, roster, reports, computed⟩ := Round.computed_of_run_scoreReputers first.reputers
  rw [same, ← whole.policy] at computed
  obtain ⟨consensus, reports', again, participants⟩ :=
    computed.again whole.grew.stakes whole.grew.rosters
  exact ⟨consensus, reputers, roster, reports', again, participants⟩

include working

theorem exists_answer_eq_error_of_nobody (scored : 0 < round.total)
    (nobody : round.consensus.participants = []) :
    ∃ kind account, (now.answer request).1 =
      .error (.scoreRecorded kind account request.topic request.block) := by
  obtain ⟨_, _, _, -, first, -, -⟩ :=
    scored_of_scoreRound (Prod.ext returned rfl :
      engine.answer request = (.ok round, (engine.answer request).2))
  obtain ⟨_, _, _, computed⟩ := Round.computed_of_run_scoreReputers first.reputers
  have whole := (later_answer engine request).trans later
  obtain ⟨consensus, _, _, _, again, participants⟩ := exists_computed_again returned later
  have nobody' : consensus.participants = [] := by
    refine List.eq_nil_iff_forall_not_mem.mpr fun reputer inside => ?_
    rw [participants, nobody] at inside
    cases inside
  have unscored : round.reputers = [] := by
    rw [(answered_of_answer returned).reputers, Round.reputerScores, List.map_eq_nil_iff.mp nobody,
      List.map_nil]
  have filled : round.inferences ≠ [] ∨ round.forecasts ≠ [] := by
    by_contra none
    rw [not_or, not_not, not_not] at none
    unfold RoundScores.total at scored
    rw [unscored, none.1, none.2] at scored
    exact lt_irrefl 0 scored
  have inferred : ∀ s ∈ round.inferences, _ := recorded_of_answered returned later .inference
  have forecasted : ∀ s ∈ round.forecasts, _ := recorded_of_answered returned later .forecast
  obtain ⟨inferences, infers, written⟩ := Round.computed_of_run_scoreInferers first.inferences
  obtain ⟨forecasts, forecast, written'⟩ := Round.computed_of_run_scoreForecasters first.forecasts
  rw [written, written'] at filled
  rw [written] at inferred
  rw [written'] at forecasted
  have aggregated := computed.aggregated
  rw [← whole.policy] at infers forecast aggregated
  have network := first.network
  unfold Engine.answer
  cases given : request.given with
  | none =>
    rw [given] at infers forecast network
    obtain ⟨none, none'⟩ := scores_eq_none_of_nobody aggregated nobody network
    cases none.symm.trans infers
    cases none'.symm.trans forecast
    exact (filled.elim (· rfl) (· rfl)).elim
  | some losses =>
    rw [given] at infers forecast network
    cases network
    exact exists_scoreRound_eq_error_of_nobody (whole.working working) again nobody' infers forecast
      filled inferred forecasted

/-- A round that scored somebody is refused from then on. -/
theorem exists_answer_eq_error_of_answered (scored : 0 < round.total) :
    ∃ kind account, (now.answer request).1 =
      .error (.scoreRecorded kind account request.topic request.block) := by
  by_cases nobody : round.consensus.participants = []
  · exact exists_answer_eq_error_of_nobody working returned later scored nobody
  have whole := (later_answer engine request).trans later
  obtain ⟨consensus, _, _, _, again, participants⟩ := exists_computed_again returned later
  have somebody : consensus.participants ≠ [] := by
    obtain ⟨reputer, inside⟩ := List.exists_mem_of_ne_nil _ nobody
    exact List.ne_nil_of_mem ((participants reputer).mpr inside)
  refine exists_scoreRound_eq_error_of_somebody (whole.working working) again ?_ somebody
    fun reputer inside => ?_
  · intro entry inside
    obtain ⟨low, -⟩ := Consensus.coefficients_mem_of_aggregate again.aggregated entry inside
    exact (Consensus.Config.min_nonneg _).trans low
  · have added := (answered_of_answer returned).added ((participants reputer).mp inside)
    exact later.grew.mem_keys added.2

end Again

/-- What holds of an engine through all requests that can be made to it. -/
structure Engine.AppendOnly {R : Type} [Scalar R] (start : Engine R) : Prop where
  scores : ∀ earlier later kind, ((start.after earlier).keeper.ledger.scores kind).entries <+:
    ((start.after (earlier ++ later)).keeper.ledger.scores kind).entries
  coefficients : ∀ earlier request topic reputer,
    ((start.after earlier).answer request).2.keeper.ledger.coefficients.get? (topic, reputer) ≠
      (start.after earlier).keeper.ledger.coefficients.get? (topic, reputer) →
    topic = request.topic ∧
      request.key reputer ∉ (start.after earlier).keeper.ledger.reputerScores.keys ∧
      request.key reputer ∈
        ((start.after earlier).answer request).2.keeper.ledger.reputerScores.keys
  once : ∀ earlier between request request' round round',
    ((start.after earlier).answer request).1 = .ok round →
    ((start.after (earlier ++ request :: between)).answer request').1 = .ok round' →
    request.topic = request'.topic ∧ request.block = request'.block →
    ∀ reputer ∈ round.consensus.coefficients.keys, reputer ∉ round'.consensus.coefficients.keys

theorem appendOnly {R : Type} [Scalar R] (start : Engine R) : start.AppendOnly := by
  refine ⟨fun earlier later kind => ?_, fun _ _ _ _ => added_of_changed, ?_⟩
  · rw [Engine.after_append]
    exact (grew_after _ later).scores kind
  · intro earlier between request request' round round' returned returned' same reputer takes
    rw [Engine.after_append, Engine.after_cons] at returned'
    rw [(answered_of_answer returned).effect.participants] at takes
    rw [(answered_of_answer returned').effect.participants]
    exact not_participant_of_participant returned returned' same takes

theorem scores_append_only_and_coefficients_move_once :
    (∀ (R : Type) [Scalar R] (start : Engine R), start.AppendOnly) ∧
    ∀ start : Engine ℝ, start.keeper.outage = none → ∀ earlier between request round,
      ((start.after earlier).answer request).1 = .ok round → 0 < round.total →
      (∃ kind account, ((start.after (earlier ++ request :: between)).answer request).1 =
        .error (.scoreRecorded kind account request.topic request.block)) ∧
      ((start.after (earlier ++ request :: between)).answer request).2.keeper.ledger =
        (start.after (earlier ++ request :: between)).keeper.ledger := by
  refine ⟨fun _ _ => appendOnly, ?_⟩
  intro start working earlier between request round returned scored
  rw [Engine.after_append, Engine.after_cons]
  obtain ⟨kind, account, refused⟩ := exists_answer_eq_error_of_answered
    ((later_after start earlier).working working) returned (later_after _ between) scored
  exact ⟨⟨kind, account, refused⟩, unchanged_of_answer refused⟩

/-- The round of one reputer, asked for twice. -/
theorem second_asking_is_refused :
    ∃ (start : Engine ℝ) (request : Round.Request ℝ) (round : RoundScores ℝ),
      start.keeper.outage = none ∧ (start.answer request).1 = .ok round ∧ 0 < round.total ∧
      (∃ kind account, ((start.after [request]).answer request).1 =
        .error (.scoreRecorded kind account request.topic request.block)) ∧
      ((start.after [request]).answer request).2.keeper.ledger =
        (start.after [request]).keeper.ledger := by
  obtain ⟨round, after, returned, ⟨_, _, reputer, _, -, takes, -, -⟩, -⟩ := exists_scoreRound_sample
    (.onePass 1 zero_le_one le_rfl) (show (0 : ℝ) < 3 by norm_num) (show (0 : ℝ) < 2 by norm_num)
  generalize started : Engine.sample (.onePass 1 zero_le_one le_rfl) = start at returned
  have working : start.keeper.outage = none := by
    rw [← started]
    rfl
  generalize asked : (⟨1, 1, [.sample 3 2], none⟩ : Round.Request ℝ) = request
  have answered : (start.answer request).1 = .ok round := by
    rw [← asked]
    exact congrArg Prod.fst returned
  have scored : 0 < round.total := by
    have reputers : round.reputers ≠ [] := by
      rw [(answered_of_answer answered).reputers]
      intro empty
      rw [Consensus.participants, Table.keys, List.map_eq_nil_iff.mp empty] at takes
      cases takes
    exact Nat.add_pos_left (Nat.add_pos_left (List.length_pos_iff.mpr reputers) _) _
  exact ⟨start, request, round, working, answered, scored,
    scores_append_only_and_coefficients_move_once.2 start working [] [] request round answered
      scored⟩

end RoundScoring
