import RoundScoring.Proofs.Consensus.Bounds
import RoundScoring.Proofs.Rounds.AllOrNothing
import RoundScoring.Proofs.Rounds.Scoring
import RoundScoring.Proofs.Rounds.Working

/-!
Rounds return, on a keeper without an outage, when their numbers let them: no coefficient is
refused, the levels can be read back as losses, every such loss has a logarithm, and shares among
forecasters are shares (`exists_scoreRound_of_network`). In exact arithmetic all numbers do, and
nothing stops a round but what is read before its consensus, or scores of its block that are kept
already.
-/

namespace RoundScoring

open Keeper

namespace Consensus

theorem exists_toBundle (consensus : Consensus ℝ) (topic : Int) :
    ∃ network, consensus.toBundle topic = .ok network := by
  obtain ⟨losses, computed⟩ : ∃ losses, consensus.losses = .ok losses :=
    Fault.exists_mapM_eq_ok fun entry _ => ⟨(entry.1, 10 ^ entry.2), rfl⟩
  exact ⟨_, Fault.bind_eq_ok_iff.mpr ⟨losses, computed, rfl⟩⟩

theorem isLoss_of_levelOf {consensus : Consensus ℝ} {key : LossKey} {loss : ℝ}
    (leveled : consensus.LevelOf key loss) : Scalar.IsLoss loss := by
  obtain ⟨level, -, power⟩ := leveled
  cases power
  rw [Scalar.isLoss_iff_pos]
  positivity

end Consensus

theorem Loss.exists_uniqueness (forecasters : ℝ) :
    ∃ factor, uniqueness forecasters = .ok factor ∧ 0 ≤ factor ∧ factor ≤ 1 := by
  unfold uniqueness
  by_cases alone : forecasters ≤ 1
  · exact ⟨1, if_pos alone, zero_le_one, le_rfl⟩
  · rw [if_neg alone]
    have halved : (1 : ℝ) ≤ 2 ^ (forecasters - 1) :=
      Real.one_le_rpow one_le_two (sub_nonneg.mpr (not_le.mp alone).le)
    exact ⟨1 / 2 ^ (forecasters - 1), rfl, by positivity, div_le_one_of_le₀ halved (by positivity)⟩

namespace Round

theorem networkLoss_of_lax {R : Type} (network : Bundle R) (category : WholeCategory) :
    networkLoss false network category = .ok (network.whole category) := by
  unfold networkLoss
  split
  next found => rw [found]
  next missing => rw [missing]; rfl

/-- What is left of a forecaster's own effect among as many as a roster has is a share of it. -/
def SharesUpTo (R : Type) [Scalar R] (roster : OrderedSet Address) : Prop :=
  ∀ n ≤ roster.toList.length, ∃ factor : R,
    Loss.uniqueness (n : R) = .ok factor ∧ 0 ≤ factor ∧ factor ≤ 1

section Workers

variable {R : Type} [Scalar R] {policy : Policy R} {topic block : Int} {network : Bundle R}
  {roster : OrderedSet Address} {counts : Category → Prop} {consensus : Consensus R}
  {values : WorkerCategory → Table Address R}
  (back : Consensus.ReadBack policy.required roster counts consensus network values)

include back

theorem size_values_le (category : WorkerCategory) :
    (values category).size ≤ roster.toList.length := by
  by_cases counted : counts (.perWorker category)
  · rw [← back.workers category counted, Table.keys, List.length_map]
    exact le_rfl
  · rw [Table.size, back.nobody category counted]
    exact Nat.zero_le _

variable (proper : ∀ key loss, consensus.LevelOf key loss → Scalar.IsLoss loss)

include proper

theorem isLoss_of_mem_values {category : WorkerCategory} {pair : Address × R}
    (inside : pair ∈ (values category).entries) : Scalar.IsLoss pair.2 :=
  proper _ _ (back.workerLevel category pair inside)

theorem isLoss_of_whole {category : WholeCategory} {loss : R}
    (known : network.whole category = some loss) : Scalar.IsLoss loss :=
  proper _ _ (back.wholeLevel category loss known)

theorem exists_inferenceScores (topic block : Int) :
    ∃ scores, inferenceScores policy topic block false network = .ok scores := by
  apply Fault.exists_bind_eq_ok (back.read _)
  split
  next => exact ⟨none, rfl⟩
  next =>
    apply Fault.exists_bind_eq_ok (networkLoss_of_lax network .combined)
    split
    next => exact ⟨none, rfl⟩
    next full known =>
      have each : ∀ pair ∈ (values .oneOutInferer).entries, ∃ score : Score R, (do
          return ⟨topic, block, pair.1.text, ← Loss.workerScore full pair.2⟩) =
            (.ok score : Except (Fault R) _) :=
        fun pair inside => Fault.exists_bind_eq_ok
          (Loss.workerScore_of_isLoss (isLoss_of_whole back proper known)
            (isLoss_of_mem_values back proper inside))
          ⟨_, rfl⟩
      obtain ⟨scores, found⟩ := Fault.exists_mapM_eq_ok each
      exact Fault.exists_bind_eq_ok found ⟨some scores, rfl⟩

theorem exists_forecastScores (shares : SharesUpTo R roster) (topic block : Int) :
    ∃ scores, forecastScores policy topic block false network = .ok scores := by
  apply Fault.exists_bind_eq_ok (back.read .oneOutForecaster)
  apply Fault.exists_bind_eq_ok (back.read .oneInForecaster)
  split
  next => exact ⟨none, rfl⟩
  next =>
    apply Fault.exists_bind_eq_ok (networkLoss_of_lax network .combined)
    apply Fault.exists_bind_eq_ok (networkLoss_of_lax network .naive)
    split
    next combined naive knownCombined knownNaive =>
      obtain ⟨paired, pairs⟩ := exists_oneOutScores (isLoss_of_whole back proper knownCombined)
        fun pair inside => isLoss_of_mem_values back proper inside
      obtain ⟨factor, halves, share⟩ := shares _ (size_values_le back .oneOutForecaster)
      have scored : ∀ pair ∈ (values .oneInForecaster).entries, ∃ score,
          forecasterScore topic block false paired naive factor pair.1 pair.2 = .ok score := by
        intro pair inside
        refine exists_forecasterScore (isLoss_of_whole back proper knownNaive)
          (isLoss_of_mem_values back proper inside) share (fun strict => ?_) topic block
        cases strict
      obtain ⟨tried, each⟩ := Fault.exists_mapM_eq_ok scored
      refine Fault.exists_bind_eq_ok pairs (Fault.exists_bind_eq_ok halves ?_)
      exact Fault.exists_bind_eq_ok each ⟨_, rfl⟩
    next => exact ⟨none, rfl⟩

end Workers

theorem AllOrNone.nodup_keys {R : Type} {required : Option String} {roster : OrderedSet Address}
    {scored : Prop} {scores : List (Score R)} (whole : AllOrNone roster scored scores)
    (readable : scored → ∀ worker ∈ roster, Address.parse required worker.text = .ok worker)
    (topic block : Int) : (scores.map (ScoreKey.of topic block)).Nodup := by
  by_cases nobody : scores = []
  · rw [nobody]
    exact List.nodup_nil
  · have all := whole.accounts.resolve_left nobody
    exact nodup_scoreKeys all (readable (whole.nonempty.mp nobody)) roster.nodup_toList

section Running

variable {R : Type} [Scalar R] {policy : Policy R} {topic block : Int} {network : Bundle R}
  {roster : OrderedSet Address} {counts : Category → Prop} {consensus : Consensus R}
  {values : WorkerCategory → Table Address R} {keeper : Keeper R}
  (keyed : Consensus.Keyed policy.required roster counts consensus)
  (back : Consensus.ReadBack policy.required roster counts consensus network values)
  (proper : ∀ key loss, consensus.LevelOf key loss → Scalar.IsLoss loss)
  (working : keeper.outage = none)

include keyed back proper working

theorem exists_run_scoreInferers (unscored : keeper.ledger.Unscored .inference topic block) :
    ∃ scores after, keeper.run (scoreInferers policy topic block false network) =
      (.ok scores, after) ∧ after.outage = none := by
  obtain ⟨scores, scored⟩ := exists_inferenceScores back proper topic block
  have distinct := (allOrNone_inferences keyed back scored).nodup_keys
    (fun counted _ => keyed.readable_of_mem counted.2.1) topic block
  obtain ⟨after, records, still⟩ := exists_run_record working unscored distinct
  have computes : keeper.run (liftM (inferenceScores policy topic block false network)) =
      (.ok scores, keeper) := by
    rw [run_lift, scored]
  exact ⟨_, after, run_bind_eq_ok_iff.mpr ⟨_, _, computes, records⟩, still⟩

theorem exists_run_scoreForecasters (shares : SharesUpTo R roster)
    (unscored : keeper.ledger.Unscored .forecast topic block) :
    ∃ scores after, keeper.run (scoreForecasters policy topic block false network) =
      (.ok scores, after) ∧ after.outage = none := by
  obtain ⟨scores, scored⟩ := exists_forecastScores back proper shares topic block
  have distinct := (allOrNone_forecasts keyed back scored).nodup_keys
    (fun counted _ => keyed.readable_of_mem counted.2.2.1) topic block
  obtain ⟨after, records, still⟩ := exists_run_record working unscored distinct
  have computes : keeper.run (liftM (forecastScores policy topic block false network)) =
      (.ok scores, keeper) := by
    rw [run_lift, scored]
  exact ⟨_, after, run_bind_eq_ok_iff.mpr ⟨_, _, computes, records⟩, still⟩

end Running

end Round

theorem exists_scoreRound_of_network {R : Type} [Scalar R] {engine : Engine R} {topic block : Int}
    {submissions : List (Round.Submission R)} {consensus : Consensus R}
    {reputers : List (Address × Bundle R)} {roster : OrderedSet Address}
    {reports : List (Consensus.Report R)} {network : Bundle R} (working : engine.keeper.outage = none)
    (computed : Round.Computed engine.policy topic submissions engine.keeper.ledger consensus reputers
      roster reports)
    (unscored : ∀ kind, engine.keeper.ledger.Unscored kind topic block)
    (nonneg : ∀ entry ∈ consensus.coefficients.entries, 0 ≤ entry.2)
    (made : consensus.toBundle topic = .ok network)
    (proper : ∀ key loss, consensus.LevelOf key loss → Scalar.IsLoss loss)
    (shares : Round.SharesUpTo R roster) :
    ∃ round after, engine.scoreRound topic block submissions none = (.ok round, after) ∧
      round.consensus = consensus := by
  obtain ⟨values, back⟩ := Consensus.readBack_of_toBundle computed.keyed made
  -- the table of each part is still as it was when its turn comes
  obtain ⟨rated, rates, ratedWorking⟩ :=
    Round.exists_run_scoreReputers working computed nonneg (unscored .reputer)
  have inferencesUnscored : rated.ledger.Unscored .inference topic block := by
    rw [(reputersEffect_of_run rates).rest]
    exact unscored .inference
  obtain ⟨inferences, inferred, infers, inferredWorking⟩ :=
    Round.exists_run_scoreInferers computed.keyed back proper ratedWorking inferencesUnscored
  have forecastsUnscored : inferred.ledger.Unscored .forecast topic block := by
    rw [(recorded_of_run_scoreInferers infers).rest, (reputersEffect_of_run rates).rest]
    exact unscored .forecast
  obtain ⟨forecasts, after, forecast, -⟩ :=
    Round.exists_run_scoreForecasters computed.keyed back proper inferredWorking shares
      forecastsUnscored
  have ran : engine.keeper.run (Round.score engine.policy topic block submissions none) =
      (.ok ⟨topic, block, Round.reputerScores topic block consensus, inferences, forecasts, consensus,
        network⟩, after) := by
    refine run_bind_eq_ok_iff.mpr ⟨_, rated, rates, ?_⟩
    refine run_bind_eq_ok_iff.mpr ⟨network, rated, by rw [run_lift, made], ?_⟩
    refine run_bind_eq_ok_iff.mpr ⟨inferences, inferred, infers, ?_⟩
    exact run_bind_eq_ok_iff.mpr ⟨forecasts, after, forecast, rfl⟩
  unfold Engine.scoreRound
  dsimp only
  rw [run_transaction_of_working working ran]
  exact ⟨_, _, rfl, rfl⟩

theorem exists_scoreRound_error_of_network {R : Type} [Scalar R] {engine : Engine R}
    {topic block : Int} {submissions : List (Round.Submission R)} {consensus : Consensus R}
    {reputers : List (Address × Bundle R)} {roster : OrderedSet Address}
    {reports : List (Consensus.Report R)} {fault : Fault R} (working : engine.keeper.outage = none)
    (computed : Round.Computed engine.policy topic submissions engine.keeper.ledger consensus reputers
      roster reports)
    (unscored : engine.keeper.ledger.Unscored .reputer topic block)
    (nonneg : ∀ entry ∈ consensus.coefficients.entries, 0 ≤ entry.2)
    (failed : consensus.toBundle topic = .error fault) :
    ∃ after, engine.scoreRound topic block submissions none = (.error fault, after) := by
  obtain ⟨rated, rates, -⟩ := Round.exists_run_scoreReputers working computed nonneg unscored
  have ran : engine.keeper.run (Round.score engine.policy topic block submissions none) =
      (.error fault, rated) := by
    unfold Round.score
    rw [run_bind, rates]
    dsimp only
    rw [failed, run_bind, run_lift]
  unfold Engine.scoreRound
  dsimp only
  rw [run_transaction_error_of_working working ran]
  exact ⟨_, rfl⟩

theorem exists_scoreRound {engine : Engine ℝ} {topic block : Int}
    {submissions : List (Round.Submission ℝ)} {consensus : Consensus ℝ}
    {reputers : List (Address × Bundle ℝ)} {roster : OrderedSet Address}
    {reports : List (Consensus.Report ℝ)} (working : engine.keeper.outage = none)
    (computed : Round.Computed engine.policy topic submissions engine.keeper.ledger consensus reputers
      roster reports)
    (unscored : ∀ kind, engine.keeper.ledger.Unscored kind topic block) :
    ∃ round after, engine.scoreRound topic block submissions none = (.ok round, after) ∧
      round.consensus = consensus := by
  have nonneg : ∀ entry ∈ consensus.coefficients.entries, 0 ≤ entry.2 := by
    intro entry inside
    obtain ⟨low, -⟩ := Consensus.coefficients_mem_of_aggregate computed.aggregated entry inside
    exact engine.policy.consensus.min_nonneg.trans low
  obtain ⟨network, made⟩ := consensus.exists_toBundle topic
  exact exists_scoreRound_of_network working computed unscored nonneg made
    (fun _ _ => Consensus.isLoss_of_levelOf) fun n _ => Loss.exists_uniqueness n

def Address.sample (payload : UInt8) : Address := ⟨Address.usualHrp, [payload]⟩

theorem Address.parse_sample (payload : UInt8) :
    parse (some usualHrp) (sample payload).text = .ok (sample payload) := by
  have proper : Bech32.Proper usualHrp.toList := {
    plain := by simp [usualHrp, Bech32.isPlain]
    lower := by simp [usualHrp]
    size := by simp [usualHrp] }
  have fits : PayloadFits [payload] := ⟨le_rfl, by norm_num⟩
  apply parse_text_of_proper proper fits
  rintro other ⟨⟩
  rfl

section Sample

variable {R : Type} [Scalar R]

def OrderedSet.sample : OrderedSet Address := .ofList [.sample 2, .sample 1]

def Engine.sample (config : Consensus.Config R) : Engine R where
  keeper := { ledger := {
    stakes := .ofList [((1, .sample 9), 1)]
    rosters := .ofList [(1, .sample)] } }
  policy := { required := some Address.usualHrp, consensus := config }

def Bundle.sample (first second : R) : Bundle R where
  topic := 1
  combined := some 1
  naive := none
  oneOutInferer := [⟨(Address.sample 2).text, second⟩, ⟨(Address.sample 1).text, first⟩]
  oneOutForecaster := []
  oneInForecaster := []

def Round.Submission.sample (first second : R) : Round.Submission R :=
  ⟨(Address.sample 9).text, .sample first second⟩

end Sample

theorem Coverage.exists_filter_sample {first second : ℝ} (properFirst : 0 < first)
    (properSecond : 0 < second) :
    ∃ coverage, filter (some Address.usualHrp) .sample (.sample 9) (.sample first second) =
        .ok coverage ∧
      .whole .combined ∈ coverage.eligible ∧ .perWorker .oneOutInferer ∈ coverage.eligible := by
  have distinct : ([Address.sample 2, Address.sample 1] : List Address).Nodup := by decide
  let known : Table Address ℝ := ⟨[(.sample 2, second), (.sample 1, first)], distinct⟩
  let values (category : WorkerCategory) : Table Address ℝ :=
    if category = .oneOutInferer then known else .empty
  have read : ∀ category, (Bundle.sample first second).valuesFor (some Address.usualHrp) category =
      .ok (values category) := by
    intro category
    rw [Bundle.valuesFor_eq_ok_iff]
    cases category with
    | oneOutInferer =>
      exact .cons ⟨Address.parse_sample 2, rfl⟩ (.cons ⟨Address.parse_sample 1, rfl⟩ .nil)
    | oneOutForecaster => exact .nil
    | oneInForecaster => exact .nil
  have whole : wholeLosses (Bundle.sample first second) .combined = some [(.whole .combined, 1)] :=
    if_pos ((Scalar.isLoss_iff_pos 1).mpr one_pos)
  have each : ∀ payload loss, (Address.sample payload, loss) ∈ known.entries → 0 < loss →
      workerLoss .oneOutInferer known (.sample payload) =
        some (.perWorker .oneOutInferer (.sample payload), loss) := by
    intro payload loss inside proper
    unfold workerLoss
    rw [Table.get?_of_mem_entries inside]
    exact if_pos ((Scalar.isLoss_iff_pos loss).mpr proper)
  have workers : workerLosses .sample .oneOutInferer known =
      some [(.perWorker .oneOutInferer (.sample 1), first),
        (.perWorker .oneOutInferer (.sample 2), second)] := by
    have listed : OrderedSet.sample.toList = [.sample 1, .sample 2] := by decide
    unfold workerLosses OrderedSet.isEmpty
    rw [listed]
    refine mapM_eq_some_iff.mpr (.cons (each 1 first ?_ properFirst)
      (.cons (each 2 second ?_ properSecond) .nil))
    · exact List.mem_cons_of_mem _ List.mem_cons_self
    · exact List.mem_cons_self
  refine ⟨_, filter_eq_ok_iff.mpr ⟨values, read, rfl⟩, ?_, ?_⟩
  · exact mem_eligible_ofParts.mpr ⟨_, whole_mem_partsOf.mpr whole.symm⟩
  · exact mem_eligible_ofParts.mpr ⟨_, perWorker_mem_partsOf.mpr workers.symm⟩

theorem exists_scoreRound_sample (config : Consensus.Config ℝ) {first second : ℝ}
    (properFirst : 0 < first) (properSecond : 0 < second) :
    ∃ round after,
      (Engine.sample config).scoreRound 1 1 [.sample first second] none = (.ok round, after) ∧
      Round.Counts (some Address.usualHrp) .sample [.sample first second] round.consensus
        (.whole .combined) ∧
      Round.Counts (some Address.usualHrp) .sample [.sample first second] round.consensus
        (.perWorker .oneOutInferer) := by
  obtain ⟨coverage, filtered, whole, workers⟩ :=
    Coverage.exists_filter_sample properFirst properSecond
  let report : Consensus.Report ℝ := ⟨coverage, 1, 1⟩
  have takes : report.takesPart := Round.takesPart_of_filter filtered whole
  have all : Consensus.taking [report] = [report] := List.filter_cons_of_pos takes
  have somebody : Consensus.taking [report] ≠ [] := by
    rw [all]
    exact List.cons_ne_nil _ _
  have stakes : Consensus.checkStakes (Consensus.taking [report]) = .ok () := by
    rw [all, Consensus.checkStakes_eq_ok_iff]
    norm_num [report]
  have read : Round.readReputers (some Address.usualHrp) [.sample first second] =
      .ok [(Address.sample 9, Bundle.sample first second)] := by
    unfold Round.readReputers Round.Submission.sample Round.readAccount
    simp only [List.mapM_cons, List.mapM_nil, Address.parse_sample]
    rfl
  have computed : Round.Computed (Engine.sample config).policy 1 [.sample first second]
      (Engine.sample config).keeper.ledger (Consensus.ofPanel config [report])
      [(Address.sample 9, Bundle.sample first second)] .sample [report] := {
    read
    known := rfl
    reported := .cons ⟨rfl, rfl, filtered⟩ .nil
    aggregated := Consensus.aggregate_of_stakes config somebody stakes }
  have unscored : ∀ kind, (Engine.sample config).keeper.ledger.Unscored kind 1 1 := by
    intro kind key inside
    cases kind <;> cases inside
  obtain ⟨round, after, returned, same⟩ := exists_scoreRound rfl computed unscored
  have member : report ∈ Consensus.taking [report] := by
    rw [all]
    exact List.mem_cons_self
  refine ⟨round, after, returned, ?_, ?_⟩
  · rw [same]
    exact (computed.counts_iff _).mpr ⟨report, member, whole⟩
  · rw [same]
    exact (computed.counts_iff _).mpr ⟨report, member, workers⟩

end RoundScoring
