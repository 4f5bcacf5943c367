import RoundScoring.Proofs.Rounds.Replaying
import RoundScoring.Proofs.Rounds.Roster

/-!
A round scored from its own consensus, and the same round with that network given. A network that is
given must have every loss that a score needs. One that is made of a consensus names the whole roster
under a category or nobody, so what it lacks it lacks for all workers of a category at once; where it
lacks nothing both rounds are the same, call for call.
-/

namespace RoundScoring

open Keeper

variable {R : Type}

/-- Inferers are to be scored, and the loss of the whole network is not there. -/
def Bundle.LacksForInferers (network : Bundle R) : Prop :=
  network.entries .oneOutInferer ≠ [] ∧ network.whole .combined = none

/-- Forecasters are to be scored, and a loss of the whole network or all losses without one of them
are not there. -/
def Bundle.LacksForForecasters (network : Bundle R) : Prop :=
  network.entries .oneInForecaster ≠ [] ∧ (network.whole .combined = none ∨
    network.whole .naive = none ∨ network.entries .oneOutForecaster = [])

instance (network : Bundle R) : Decidable network.LacksForInferers := by
  unfold Bundle.LacksForInferers
  infer_instance

instance (network : Bundle R) : Decidable network.LacksForForecasters := by
  unfold Bundle.LacksForForecasters
  infer_instance

theorem Fault.bind_of_ok {ε α β : Type} {first : Except ε α} {next : α → Except ε β} {a : α}
    (found : first = .ok a) : first >>= next = next a := by
  rw [found]
  rfl

theorem Fault.bind_of_error {ε α β : Type} {first : Except ε α} {next : α → Except ε β} {fault : ε}
    (failed : first = .error fault) : first >>= next = .error fault := by
  rw [failed]
  rfl

theorem Bundle.entries_eq_nil_iff {required : Option String} {bundle : Bundle R}
    {category : WorkerCategory} {values : Table Address R}
    (read : bundle.valuesFor required category = .ok values) :
    values.entries = [] ↔ bundle.entries category = [] := by
  have each := valuesFor_eq_ok_iff.mp read
  constructor
  · intro nobody
    rw [nobody] at each
    exact List.forall₂_nil_right_iff.mp each
  · intro nobody
    rw [nobody] at each
    exact List.forall₂_nil_left_iff.mp each

namespace Round

theorem networkLoss_of_some {strict : Bool} {network : Bundle R} {category : WholeCategory} {loss : R}
    (known : network.whole category = some loss) :
    networkLoss strict network category = .ok (some loss) := by
  unfold networkLoss
  rw [known]

theorem networkLoss_of_missing {network : Bundle R} {category : WholeCategory}
    (missing : network.whole category = none) :
    networkLoss true network category = .error (.missingLoss category) := by
  unfold networkLoss
  rw [missing]
  rfl

variable [Scalar R] {policy : Policy R} {topic block : Int} {network : Bundle R}
  {oneOut oneIn : Table Address R} {scores : Option (List (Score R))}

section Inferers

variable (read : network.valuesFor policy.required .oneOutInferer = .ok oneOut)
  (somebody : network.entries .oneOutInferer ≠ [])

include read somebody

theorem inferenceScores_of_somebody (topic block : Int) (strict : Bool) :
    inferenceScores policy topic block strict network = (do
      match ← networkLoss strict network .combined with
      | none => return none
      | some combined =>
          return some (← oneOut.entries.mapM fun (worker, loss) =>
            return ⟨topic, block, worker.text, ← Loss.workerScore combined loss⟩)) := by
  have filled : ¬oneOut.entries.isEmpty := by
    rw [List.isEmpty_iff, Bundle.entries_eq_nil_iff read]
    exact somebody
  exact (Fault.bind_of_ok read).trans (if_neg filled)

end Inferers

theorem inferenceScores_of_lacking
    (scored : inferenceScores policy topic block false network = .ok scores)
    (lacking : network.LacksForInferers) :
    inferenceScores policy topic block true network = .error (.missingLoss .combined) := by
  obtain ⟨oneOut, read, -⟩ := Fault.bind_eq_ok_iff.mp scored
  rw [inferenceScores_of_somebody read lacking.1]
  exact Fault.bind_of_error (networkLoss_of_missing lacking.2)

theorem inferenceScores_of_complete
    (scored : inferenceScores policy topic block false network = .ok scores)
    (complete : ¬network.LacksForInferers) :
    inferenceScores policy topic block true network = .ok scores := by
  obtain ⟨oneOut, read, inferred⟩ := inferenceScores_eq_ok_iff.mp scored
  refine inferenceScores_eq_ok_iff.mpr ⟨oneOut, read, inferred.of_strict fun somebody missing => ?_⟩
  exact absurd ⟨mt (Bundle.entries_eq_nil_iff read).mpr somebody, missing⟩ complete

section Forecasters

theorem forecasterScore_of_unpaired {paired : Table Address R} {naive factor loss : R}
    {worker : Address} (unknown : worker ∉ paired.keys) :
    forecasterScore topic block true paired naive factor worker loss =
      .error (.unpairedForecaster worker) := by
  unfold forecasterScore
  rw [Table.get?_eq_none_iff.mpr unknown]
  rfl

variable (readOut : network.valuesFor policy.required .oneOutForecaster = .ok oneOut)
  (readIn : network.valuesFor policy.required .oneInForecaster = .ok oneIn)

include readOut readIn

theorem forecastScores_of_somebody (somebody : network.entries .oneInForecaster ≠ [])
    (topic block : Int) (strict : Bool) :
    forecastScores policy topic block strict network = (do
      match ← networkLoss strict network .combined, ← networkLoss strict network .naive with
      | some combined, some naive =>
          let paired ← oneOutScores combined oneOut
          let factor ← Loss.uniqueness (oneOut.size : R)
          let scores ← oneIn.entries.mapM fun (worker, loss) =>
            forecasterScore topic block strict paired naive factor worker loss
          return some (scores.filterMap id)
      | _, _ => return none) := by
  have filled : ¬oneIn.entries.isEmpty := by
    rw [List.isEmpty_iff, Bundle.entries_eq_nil_iff readIn]
    exact somebody
  exact (Fault.bind_of_ok readOut).trans ((Fault.bind_of_ok readIn).trans (if_neg filled))

theorem forecastScores_of_whole (somebody : network.entries .oneInForecaster ≠ []) {full plain : R}
    (combined : network.whole .combined = some full) (naive : network.whole .naive = some plain)
    (topic block : Int) (strict : Bool) :
    forecastScores policy topic block strict network = (do
      let paired ← oneOutScores full oneOut
      let factor ← Loss.uniqueness (oneOut.size : R)
      let scores ← oneIn.entries.mapM fun (worker, loss) =>
        forecasterScore topic block strict paired plain factor worker loss
      return some (scores.filterMap id)) :=
  (forecastScores_of_somebody readOut readIn somebody topic block strict).trans
    ((Fault.bind_of_ok (networkLoss_of_some combined)).trans
      (Fault.bind_of_ok (networkLoss_of_some naive)))

theorem exists_forecastScores_of_lacking
    (scored : forecastScores policy topic block false network = .ok scores)
    (lacking : network.LacksForForecasters) :
    ∃ fault, forecastScores policy topic block true network = .error fault ∧
      fault.kind = .invalidInput := by
  obtain ⟨somebody, missing⟩ := lacking
  cases combined : network.whole .combined with
  | none =>
    rw [forecastScores_of_somebody readOut readIn somebody]
    exact ⟨_, Fault.bind_of_error (networkLoss_of_missing combined), rfl⟩
  | some full =>
    cases naive : network.whole .naive with
    | none =>
      rw [forecastScores_of_somebody readOut readIn somebody]
      refine ⟨.missingLoss .naive, (Fault.bind_of_ok (networkLoss_of_some combined)).trans ?_, rfl⟩
      exact Fault.bind_of_error (networkLoss_of_missing naive)
    | some plain =>
      have unpaired : network.entries .oneOutForecaster = [] := by
        rcases missing with missing | missing | unpaired
        · cases combined.symm.trans missing
        · cases naive.symm.trans missing
        · exact unpaired
      rw [forecastScores_of_whole readOut readIn somebody combined naive] at scored ⊢
      obtain ⟨paired, pairs, rest⟩ := Fault.bind_eq_ok_iff.mp scored
      obtain ⟨factor, shares, -⟩ := Fault.bind_eq_ok_iff.mp rest
      obtain ⟨first, others, listed⟩ : ∃ first others, oneIn.entries = first :: others := by
        rw [← List.ne_nil_iff_exists_cons, ne_eq, Bundle.entries_eq_nil_iff readIn]
        exact somebody
      have unknown : first.1 ∉ paired.keys := by
        rw [mem_keys_oneOutScores pairs, Table.keys, (Bundle.entries_eq_nil_iff readOut).mpr unpaired]
        exact List.not_mem_nil
      refine ⟨.unpairedForecaster first.1, ?_, rfl⟩
      refine (Fault.bind_of_ok pairs).trans ((Fault.bind_of_ok shares).trans (Fault.bind_of_error ?_))
      rw [listed, List.mapM_cons]
      exact Fault.bind_of_error (forecasterScore_of_unpaired unknown)

theorem forecastScores_of_complete
    (scored : forecastScores policy topic block false network = .ok scores)
    (complete : ¬network.LacksForForecasters)
    (covered : oneOut.entries ≠ [] → ∀ worker ∈ oneIn.keys, worker ∈ oneOut.keys) :
    forecastScores policy topic block true network = .ok scores := by
  obtain ⟨_, _, readOut', readIn', forecasted⟩ := forecastScores_eq_ok_iff.mp scored
  rw [readOut] at readOut'
  rw [readIn] at readIn'
  cases readOut'
  cases readIn'
  refine forecastScores_eq_ok_iff.mpr ⟨oneOut, oneIn, readOut, readIn, forecasted.of_strict ?_ ?_⟩
  · intro somebody missing
    refine absurd ⟨mt (Bundle.entries_eq_nil_iff readIn).mpr somebody, ?_⟩ complete
    exact missing.imp_right .inl
  · intro pair inside
    refine .inr (covered (fun unpaired => complete ⟨?_, .inr (.inr ?_)⟩) _ (List.mem_map_of_mem inside))
    · exact mt (Bundle.entries_eq_nil_iff readIn).mpr (List.ne_nil_of_mem inside)
    · exact (Bundle.entries_eq_nil_iff readOut).mp unpaired

end Forecasters

/-- A consensus names the roster under a category or nobody, so forecasters with losses of their own
are those with losses without them, if there are any such losses. -/
theorem covered_of_readBack {roster : OrderedSet Address} {counts : Category → Prop}
    {consensus : Consensus R} {values : WorkerCategory → Table Address R}
    (back : Consensus.ReadBack policy.required roster counts consensus network values)
    (somebody : (values .oneOutForecaster).entries ≠ []) :
    ∀ worker ∈ (values .oneInForecaster).keys, worker ∈ (values .oneOutForecaster).keys := by
  intro worker inside
  have paired : counts (.perWorker .oneOutForecaster) :=
    not_not.mp fun uncounted => somebody (back.nobody _ uncounted)
  have alone : counts (.perWorker .oneInForecaster) := by
    refine not_not.mp fun uncounted => ?_
    rw [Table.keys, back.nobody _ uncounted] at inside
    cases inside
  rwa [back.workers _ paired, ← back.workers _ alone]

end Round

variable [Scalar R]

theorem Scored.run {policy : Policy R} {topic block : Int} {submissions : List (Round.Submission R)}
    {given : Option (Bundle R)} {round : RoundScores R} {before rated inferred after : Keeper R}
    (scored : Scored policy topic block submissions given round before rated inferred after) :
    before.run (Round.score policy topic block submissions given) = (.ok round, after) := by
  obtain ⟨⟨rfl, rfl⟩, reputed, chosen, infers, casts⟩ := scored
  obtain ⟨topic, block, reputers, inferences, forecasts, consensus, network⟩ := round
  dsimp only at reputed chosen infers casts ⊢
  have workers : rated.run (do
      let inferences ← Round.scoreInferers policy topic block given.isSome network
      let forecasts ← Round.scoreForecasters policy topic block given.isSome network
      return RoundScores.mk topic block reputers inferences forecasts consensus network) =
      (.ok (.mk topic block reputers inferences forecasts consensus network), after) :=
    run_bind_eq_ok_iff.mpr ⟨_, inferred, infers, run_bind_eq_ok_iff.mpr ⟨_, after, casts, rfl⟩⟩
  refine run_bind_eq_ok_iff.mpr ⟨_, rated, reputed, ?_⟩
  cases given with
  | some given =>
    cases chosen
    exact workers
  | none =>
    exact run_bind_eq_ok_iff.mpr
      ⟨network, rated, (run_lift _ _).trans (congrArg (·, rated) chosen), workers⟩

section Scored

variable {policy : Policy R} {topic block : Int} {submissions : List (Round.Submission R)}
  {round : RoundScores R} {before rated inferred after : Keeper R} {roster : OrderedSet Address}
  {counts : Category → Prop} {values : WorkerCategory → Table Address R}
  {inferences forecasts : Option (List (Score R))}
  (scored : Scored policy topic block submissions none round before rated inferred after)
  (back : Consensus.ReadBack policy.required roster counts round.consensus round.network values)
  (infers : Round.inferenceScores policy topic block false round.network = .ok inferences)
  (casts : Round.forecastScores policy topic block false round.network = .ok forecasts)

include scored

include infers in
theorem Scored.run_scoreInferers (complete : ¬round.network.LacksForInferers) :
    rated.run (Round.scoreInferers policy topic block true round.network) =
      (.ok round.inferences, inferred) := by
  rw [Round.run_scoreInferers_of_scored _ (Round.inferenceScores_of_complete infers complete),
    ← Round.run_scoreInferers_of_scored _ infers]
  exact scored.inferences

include back casts in
theorem Scored.run_scoreForecasters (complete : ¬round.network.LacksForForecasters) :
    inferred.run (Round.scoreForecasters policy topic block true round.network) =
      (.ok round.forecasts, after) := by
  have strictly := Round.forecastScores_of_complete (back.read _) (back.read _) casts complete
    (Round.covered_of_readBack back)
  rw [Round.run_scoreForecasters_of_scored _ strictly, ← Round.run_scoreForecasters_of_scored _ casts]
  exact scored.forecasts

include back infers casts in
theorem Scored.exists_run_score_of_lacking
    (lacking : round.network.LacksForInferers ∨ round.network.LacksForForecasters) :
    ∃ fault, (before.run (Round.score policy topic block submissions (some round.network))).1 =
      .error fault ∧ fault.kind = .invalidInput := by
  unfold Round.score
  rw [run_bind_of_ok scored.reputers]
  dsimp only
  rw [run_bind_of_ok (run_pure rated round.network), Option.isSome_some]
  by_cases forInferers : round.network.LacksForInferers
  · have refused := Round.inferenceScores_of_lacking infers forInferers
    refine ⟨.missingLoss .combined, run_bind_eq_error (run_bind_eq_error ?_), rfl⟩
    rw [run_lift, refused]
  · obtain ⟨fault, refused, kind⟩ := Round.exists_forecastScores_of_lacking (back.read _)
      (back.read _) casts (lacking.resolve_left forInferers)
    refine ⟨fault, ?_, kind⟩
    rw [run_bind_of_ok (scored.run_scoreInferers infers forInferers)]
    refine run_bind_eq_error (run_bind_eq_error ?_)
    rw [run_lift, refused]

end Scored

section Engine

variable {engine after : Engine R} {topic block : Int} {submissions : List (Round.Submission R)}
  {given : Option (Bundle R)} {round : RoundScores R} {fault : Fault R}

theorem scoreRound_eq_ok_iff :
    engine.scoreRound topic block submissions given = (.ok round, after) ↔
      ∃ opened kept, engine.keeper.run (attempt .openTransaction) = (.ok (), opened) ∧
        opened.run (Round.score engine.policy topic block submissions given) = (.ok round, kept) ∧
        after = { engine with keeper := kept, unscored := engine.unscored.erase (topic, block) } := by
  constructor
  · intro returned
    unfold Engine.scoreRound at returned
    dsimp only at returned
    split at returned
    next scores keeper ran =>
      cases returned
      obtain ⟨_, opened, opens, rest⟩ := run_bind_eq_ok_iff.mp ran
      refine ⟨opened, keeper, opens, ?_, rfl⟩
      rw [run_undoing] at rest
      split at rest
      next found => rw [found, ← rest]
      next => cases rest
    next => cases returned
  · rintro ⟨opened, kept, opens, done, rfl⟩
    unfold Engine.scoreRound
    dsimp only
    rw [run_transaction_of_ok opens done]

theorem exists_scoreRound_eq_error_of_opened {opened : Keeper R}
    (opens : engine.keeper.run (attempt .openTransaction) = (.ok (), opened))
    (failed : (opened.run (Round.score engine.policy topic block submissions given)).1 =
      .error fault) :
    ∃ refused, engine.scoreRound topic block submissions given = (.error fault, refused) := by
  have refused := run_transaction_eq_error_of_opened opens failed
  unfold Engine.scoreRound
  dsimp only
  split
  next ran =>
    rw [ran] at refused
    cases refused
  next ran =>
    rw [ran] at refused
    cases refused
    exact ⟨_, rfl⟩

/-- What is given is made of the consensus that the same reports come to again. -/
theorem own_network_given_is_refused_or_scored_alike
    (returned : engine.scoreRound topic block submissions none = (.ok round, after)) :
    ((∃ fault refused, engine.scoreRound topic block submissions (some round.network) =
          (.error fault, refused) ∧ fault.kind = .invalidInput ∧
          refused.keeper.ledger = engine.keeper.ledger) ↔
        round.network.LacksForInferers ∨ round.network.LacksForForecasters) ∧
      (¬(round.network.LacksForInferers ∨ round.network.LacksForForecasters) →
        engine.scoreRound topic block submissions (some round.network) = (.ok round, after)) := by
  obtain ⟨opened, kept, opens, done, rfl⟩ := scoreRound_eq_ok_iff.mp returned
  obtain ⟨rated, inferred, scored⟩ := scored_of_run done
  obtain ⟨_, _, _, values, _, _, back, infers, casts, -⟩ := readBack_of_scoreRound returned
  have alike : ¬(round.network.LacksForInferers ∨ round.network.LacksForForecasters) →
      engine.scoreRound topic block submissions (some round.network) = (.ok round,
        { engine with keeper := kept, unscored := engine.unscored.erase (topic, block) }) := by
    intro complete
    obtain ⟨forInferers, forForecasters⟩ := not_or.mp complete
    have infer := scored.run_scoreInferers infers forInferers
    have cast := scored.run_scoreForecasters back casts forForecasters
    have again : Scored engine.policy topic block submissions (some round.network) round opened rated
        inferred kept := ⟨scored.place, scored.reputers, rfl, infer, cast⟩
    exact scoreRound_eq_ok_iff.mpr ⟨opened, kept, opens, again.run, rfl⟩
  refine ⟨⟨?_, fun lacking => ?_⟩, alike⟩
  · rintro ⟨fault, refused, failed, -⟩
    by_contra complete
    cases (alike complete).symm.trans failed
  · obtain ⟨fault, failed, kind⟩ := scored.exists_run_score_of_lacking back infers casts lacking
    obtain ⟨refused, refuses⟩ := exists_scoreRound_eq_error_of_opened opens failed
    exact ⟨fault, refused, refuses, kind, (unchanged_of_scoreRound refuses).1⟩

end Engine

def Round.Submission.partial (first second : R) : Round.Submission R :=
  { Round.Submission.sample first second with
    bundle := { Bundle.sample first second with combined := none } }

/-- Both workers are scored again when the losses are complete. Without the combined loss nobody is
scored at first, and the network is refused then. -/
theorem own_network_given_both_ways :
    (∃ round after,
      (Engine.sample .usual).scoreRound 1 1 [.sample 3 2] none = (.ok round, after) ∧
      round.inferences.length = 2 ∧
      (Engine.sample .usual).scoreRound 1 1 [.sample 3 2] (some round.network) = (.ok round, after)) ∧
    ∃ round after,
      (Engine.sample .usual).scoreRound 1 1 [.partial 3 2] none = (.ok round, after) ∧
      ∃ fault refused,
        (Engine.sample .usual).scoreRound 1 1 [.partial 3 2] (some round.network) =
          (.error fault, refused) ∧
        fault.kind = .invalidInput ∧
        refused.keeper.ledger = (Engine.sample .usual).keeper.ledger := by
  constructor
  · have complete : ((Engine.sample .usual).scoreRound 1 1 [.sample 3 2] none).1.toOption.map
        (fun round => (round.inferences.length, decide (round.network.LacksForInferers ∨
          round.network.LacksForForecasters))) = some (2, false) := by
      decide +kernel
    generalize ran : (Engine.sample .usual).scoreRound 1 1 [.sample 3 2] none = outcome at complete
    obtain ⟨fault | round, after⟩ := outcome
    · cases complete
    · obtain ⟨both, lacks⟩ := Prod.mk.inj (Option.some.inj complete)
      exact ⟨round, after, rfl, both,
        (own_network_given_is_refused_or_scored_alike ran).2 (of_decide_eq_false lacks)⟩
  · have lacking : ((Engine.sample .usual).scoreRound 1 1 [.partial 3 2] none).1.toOption.map
        (fun round => decide (round.network.LacksForInferers ∨
          round.network.LacksForForecasters)) = some true := by
      decide +kernel
    generalize ran : (Engine.sample .usual).scoreRound 1 1 [.partial 3 2] none = outcome at lacking
    obtain ⟨fault | round, after⟩ := outcome
    · cases lacking
    · exact ⟨round, after, rfl, (own_network_given_is_refused_or_scored_alike ran).1.mpr
        (of_decide_eq_true (Option.some.inj lacking))⟩

end RoundScoring
