import Mathlib.Data.Set.Basic
import RoundScoring.Proofs.Consensus.Bounds
import RoundScoring.Proofs.Rounds.Faults
import RoundScoring.Proofs.Rounds.Returning

/-!
How reputers are listened to, round after round. In exact arithmetic no coefficient that a round
computes is refused, and whatever happens between rounds, what rounds have stored and nobody has
replaced lies in the range of their config.
-/

namespace RoundScoring

open Keeper

/-- What an engine goes through while its consensus config stays. Between rounds its keeper may change
in any way. Kept along are the topics and reputers whose coefficient is still the one that the last
round with that reputer stored. -/
inductive Engine.Ran {R : Type} [Scalar R] (start : Engine R) :
    Set (Int × Address) → Engine R → Prop where
  | start : Ran start ∅ start
  | returned {stored : Set (Int × Address)} {engine after : Engine R} {topic block : Int}
      {submissions : List (Round.Submission R)} {given : Option (Bundle R)} {round : RoundScores R} :
      Ran start stored engine →
      engine.scoreRound topic block submissions given = (.ok round, after) →
      Ran start (stored ∪ {key | key.1 = topic ∧ key.2 ∈ round.consensus.participants}) after
  | failed {stored : Set (Int × Address)} {engine after : Engine R} {topic block : Int}
      {submissions : List (Round.Submission R)} {given : Option (Bundle R)} {fault : Fault R} :
      Ran start stored engine →
      engine.scoreRound topic block submissions given = (.error fault, after) →
      Ran start stored after
  | rated {stored : Set (Int × Address)} {engine : Engine R} {keeper : Keeper R} {topic block : Int}
      {submissions : List (Round.Submission R)} {scored : Round.ReputerScores R} :
      Ran start stored engine →
      engine.keeper.run (Round.scoreReputers engine.policy topic block submissions) =
        (.ok scored, keeper) →
      Ran start (stored ∪ {key | key.1 = topic ∧ key.2 ∈ scored.consensus.participants})
        { engine with keeper }
  | meanwhile {stored : Set (Int × Address)} {engine after : Engine R} :
      Ran start stored engine →
      after.policy.consensus = engine.policy.consensus →
      Ran start {key ∈ stored | after.keeper.ledger.coefficients.get? key =
        engine.keeper.ledger.coefficients.get? key} after

def Listened (config : Consensus.Config ℝ) (table : Table (Int × Address) (Coefficient ℝ))
    (key : Int × Address) : Prop :=
  ∃ coefficient, table.get? key = some coefficient ∧
    config.minCoefficient ≤ coefficient.value ∧ coefficient.value ≤ config.maxCoefficient

section Step

variable {config : Consensus.Config ℝ} {before after : Table (Int × Address) (Coefficient ℝ)}

theorem listened_of_relistened {topic : Int} {given : Table Address ℝ}
    (relistened : Relistened topic given before after)
    (range : ∀ entry ∈ given.entries,
      config.minCoefficient ≤ entry.2 ∧ entry.2 ≤ config.maxCoefficient)
    {key : Int × Address}
    (known : Listened config before key ∨ key.1 = topic ∧ key.2 ∈ given.keys) :
    Listened config after key := by
  have value := relistened.values key.1 key.2
  by_cases inside : key.1 = topic ∧ key.2 ∈ given.keys
  · rw [if_pos inside] at value
    obtain ⟨c, found⟩ := Table.exists_get?_of_mem_keys inside.2
    rw [found] at value
    obtain ⟨coefficient, stored, rfl⟩ := Option.map_eq_some_iff.mp value
    exact ⟨coefficient, stored, range _ (Table.mem_entries_of_get? found)⟩
  · obtain ⟨coefficient, stored, bounds⟩ := known.resolve_right inside
    rw [if_neg inside, stored] at value
    obtain ⟨coefficient', stored', same⟩ := Option.map_eq_some_iff.mp value
    rw [← same] at bounds
    exact ⟨coefficient', stored', bounds⟩

end Step

theorem listened_of_run_scoreReputers {policy : Policy ℝ} {topic block : Int}
    {submissions : List (Round.Submission ℝ)} {scored : Round.ReputerScores ℝ}
    {keeper after : Keeper ℝ}
    (ran : keeper.run (Round.scoreReputers policy topic block submissions) = (.ok scored, after))
    {key : Int × Address}
    (known : Listened policy.consensus keeper.ledger.coefficients key ∨
      key.1 = topic ∧ key.2 ∈ scored.consensus.participants) :
    Listened policy.consensus after.ledger.coefficients key := by
  obtain ⟨_, _, _, computed⟩ := Round.computed_of_run_scoreReputers ran
  have effect := reputersEffect_of_run ran
  rw [← effect.participants] at known
  exact listened_of_relistened effect.coefficients
    (Consensus.coefficients_mem_of_aggregate computed.aggregated) known

theorem listened_of_scoreRound {engine after : Engine ℝ} {topic block : Int}
    {submissions : List (Round.Submission ℝ)} {given : Option (Bundle ℝ)} {round : RoundScores ℝ}
    (returned : engine.scoreRound topic block submissions given = (.ok round, after))
    {key : Int × Address}
    (known : Listened engine.policy.consensus engine.keeper.ledger.coefficients key ∨
      key.1 = topic ∧ key.2 ∈ round.consensus.participants) :
    Listened engine.policy.consensus after.keeper.ledger.coefficients key := by
  obtain ⟨opened, rated, inferred, same, scored, -, -⟩ := scored_of_scoreRound returned
  obtain ⟨_, _, _, computed⟩ := Round.computed_of_run_scoreReputers scored.reputers
  have effect := scored.effect
  rw [← effect.participants, ← scored.place.1, ← same] at known
  exact listened_of_relistened effect.coefficients
    (Consensus.coefficients_mem_of_aggregate computed.aggregated) known

theorem listened_of_ran {start engine : Engine ℝ} {stored : Set (Int × Address)}
    (ran : start.Ran stored engine) :
    engine.policy.consensus = start.policy.consensus ∧
      ∀ key ∈ stored, Listened start.policy.consensus engine.keeper.ledger.coefficients key := by
  -- A round brings its own coefficients into the range, and everything else keeps those that count.
  induction ran with
  | start => exact ⟨rfl, fun key impossible => impossible.elim⟩
  | @returned stored engine after topic block submissions given round _ returned ih =>
    obtain ⟨config, kept⟩ := ih
    have policy := policy_of_scoreRound engine topic block submissions given
    rw [returned] at policy
    refine ⟨(congrArg Policy.consensus policy).trans config, fun key known => ?_⟩
    rw [← config] at kept ⊢
    exact listened_of_scoreRound returned (known.imp_left (kept key))
  | @failed stored engine after topic block submissions given fault _ failed ih =>
    obtain ⟨config, kept⟩ := ih
    obtain ⟨ledger, policy, -⟩ := unchanged_of_scoreRound failed
    rw [policy, ledger]
    exact ⟨config, kept⟩
  | rated _ returned ih =>
    obtain ⟨config, kept⟩ := ih
    refine ⟨config, fun key known => ?_⟩
    rw [← config] at kept ⊢
    exact listened_of_run_scoreReputers returned (known.imp_left (kept key))
  | meanwhile _ policy ih =>
    obtain ⟨config, kept⟩ := ih
    refine ⟨policy.trans config, fun key known => ?_⟩
    obtain ⟨coefficient, found, bounds⟩ := kept key known.1
    exact ⟨coefficient, known.2.trans found, bounds⟩

theorem Consensus.within_aggregate {allowed : Fault ℝ → Prop} (negative : allowed .negativeStake)
    (nothing : allowed .noStake) (config : Config ℝ) (reports : List (Report ℝ)) :
    Fault.Within allowed (aggregate config reports) := by
  by_cases nobody : taking reports = []
  · rw [aggregate_of_nobody nobody]
    exact Fault.within_ok _
  by_cases stakes : checkStakes (taking reports) = .ok ()
  · rw [aggregate_of_stakes config nobody stakes]
    exact Fault.within_ok _
  · unfold aggregate
    change Fault.Within allowed (if (taking reports).isEmpty then _ else _)
    rw [if_neg (by simpa using nobody)]
    have checked : Fault.Within allowed (checkStakes (taking reports)) := by
      unfold checkStakes
      split
      next => exact Fault.within_error negative
      next =>
        split
        next => exact Fault.within_error nothing
        next => exact Fault.within_ok ()
    exact checked.bind fun _ passed => absurd passed stakes

theorem not_refused_of_run_scoreReputers (policy : Policy ℝ) (topic block : Int)
    (submissions : List (Round.Submission ℝ)) :
    FailsWithin (fun fault => ∀ c, fault ≠ .coefficientRefused c)
      (Round.scoreReputers policy topic block submissions) := by
  have reading : Round.ReadingFaults fun fault : Fault ℝ => ∀ c, fault ≠ .coefficientRefused c := by
    constructor <;> simp
  refine Round.failsWithin_scoreReputers reading
    (Consensus.within_aggregate (by simp) (by simp) policy.consensus) ?_ (by simp) topic block
    submissions
  intro reports consensus aggregated entry inside
  obtain ⟨low, -⟩ := Consensus.coefficients_mem_of_aggregate aggregated entry inside
  exact policy.consensus.min_nonneg.trans low

theorem Round.Computed.filled {policy : Policy ℝ} {topic : Int}
    {submissions : List (Round.Submission ℝ)} {ledger : Ledger ℝ} {consensus : Consensus ℝ}
    {reputers : List (Address × Bundle ℝ)} {roster : OrderedSet Address}
    {reports : List (Consensus.Report ℝ)}
    (computed : Computed policy topic submissions ledger consensus reputers roster reports) :
    Consensus.Filled reports := by
  intro report inside eligible
  obtain ⟨_, _, reported⟩ := exists_left_of_forall₂ computed.reported inside
  exact Coverage.losses_ne_nil_of_filter reported.coverage eligible

theorem coefficients_stay_in_range (config : Consensus.Config ℝ) :
    (∀ reports, Consensus.Filled reports → ∀ consensus,
      Consensus.aggregate config reports = .ok consensus →
        Consensus.Normalised config reports consensus) ∧
    (∀ (required : Option String) (keeper : Keeper ℝ) (topic block : Int)
        (submissions : List (Round.Submission ℝ)),
      (∀ c, (keeper.run (Round.scoreReputers ⟨required, config⟩ topic block submissions)).1 ≠
        .error (.coefficientRefused c)) ∧
      ∀ scored after,
        keeper.run (Round.scoreReputers ⟨required, config⟩ topic block submissions) =
          (.ok scored, after) →
        ∃ reports, Consensus.Filled reports ∧
          Consensus.aggregate config reports = .ok scored.consensus) ∧
    ∀ (start engine : Engine ℝ) (stored : Set (Int × Address)), start.policy.consensus = config →
      start.Ran stored engine →
      ∀ key ∈ stored, Listened config engine.keeper.ledger.coefficients key := by
  refine ⟨fun _ _ _ => Consensus.normalised_of_aggregate, ?_, ?_⟩
  · intro required keeper topic block submissions
    refine ⟨fun c refused => ?_, fun scored after ran => ?_⟩
    · exact not_refused_of_run_scoreReputers _ topic block submissions keeper _ refused c rfl
    · obtain ⟨_, _, reports, computed⟩ := Round.computed_of_run_scoreReputers ran
      exact ⟨reports, computed.filled, computed.aggregated⟩
  · rintro start engine stored rfl ran
    exact (listened_of_ran ran).2

/-- Of two participants one ends at the upper end, and the one reputer of a round has a coefficient in
the range afterwards. -/
theorem coefficients_stay_in_range_after_round :
    ∃ config : Consensus.Config ℝ,
      (∃ reports consensus, Consensus.Filled reports ∧
        Consensus.aggregate config reports = .ok consensus ∧ 0 < consensus.passes ∧
        ¬Consensus.Still config reports ∧
        ((Consensus.taking reports).map Consensus.Report.reputer).Nodup ∧
        IsGreatest {c | c ∈ consensus.coefficients.entries.map Prod.snd} config.maxCoefficient) ∧
      ∃ (engine : Engine ℝ) (stored : Set (Int × Address)),
        (Engine.sample config).policy.consensus = config ∧
        (Engine.sample config).Ran stored engine ∧ (1, Address.sample 9) ∈ stored ∧
        Listened config engine.keeper.ledger.coefficients (1, Address.sample 9) := by
  let config := Consensus.Config.onePass 1 zero_le_one le_rfl
  obtain ⟨normalises, -, keeps⟩ := coefficients_stay_in_range config
  refine ⟨config, ?_, ?_⟩
  · let reports := [Consensus.Report.lone 1 1 1 1, Consensus.Report.lone 2 3 10 (1 / 2)]
    have first := Consensus.takesPart_lone 1 1 1 one_pos
    have second := Consensus.takesPart_lone 2 3 (1 / 2) (show (0 : ℝ) < 10 by norm_num)
    have returned : Consensus.aggregate config reports = _ :=
      Consensus.aggregate_pair config first second one_pos zero_le_three
    have filled : Consensus.Filled reports := by
      intro report inside _
      rcases List.mem_pair.mp inside with rfl | rfl <;> exact List.cons_ne_nil _ _
    have passes : (Consensus.ofPanel config reports).passes = 1 := by
      refine (Consensus.roundPanel reports).passes_of_go config (Consensus.priors reports) fun k _ => ?_
      exact not_lt.mpr (Real.iSup_nonneg fun i => abs_nonneg _)
    have passed : 0 < (Consensus.ofPanel config reports).passes := passes ▸ one_pos
    have moving : ¬Consensus.Still config reports := fun still => one_ne_zero still.1
    have once : ((Consensus.taking reports).map Consensus.Report.reputer).Nodup := by
      rw [Consensus.taking_pair first second]
      exact Consensus.nodup_reputers_lone (by decide) _ _ _ _ _ _
    exact ⟨reports, _, filled, returned, passed, moving, once,
      (normalises reports filled _ returned).returned passed moving once⟩
  · obtain ⟨round, after, returned, ⟨_, inside, reputer, _, parsed, takes, -, -⟩, -⟩ :=
      exists_scoreRound_sample config (show (0 : ℝ) < 3 by norm_num) (show (0 : ℝ) < 2 by norm_num)
    cases List.mem_singleton.mp inside
    cases (Address.parse_sample 9).symm.trans parsed
    have ran := Engine.Ran.start.returned returned
    have stored : (1, Address.sample 9) ∈
        (∅ ∪ {key | key.1 = 1 ∧ key.2 ∈ round.consensus.participants} : Set (Int × Address)) :=
      .inr ⟨rfl, takes⟩
    exact ⟨after, _, rfl, ran, stored, keeps _ _ _ rfl ran _ stored⟩

namespace Consensus

/-- A reputer that takes part twice, the first time at the upper end. -/
noncomputable def twice (late : ℝ) : List (Report ℝ) :=
  [Report.lone 1 1 1 1, Report.lone 1 1 1 late]

theorem taking_twice (late : ℝ) : taking (twice late) = twice late := by
  unfold taking twice
  rw [List.filter_cons_of_pos (takesPart_lone _ _ _ one_pos),
    List.filter_cons_of_pos (takesPart_lone _ _ _ one_pos), List.filter_nil]

theorem aggregate_twice (config : Config ℝ) (late : ℝ) :
    aggregate config (twice late) = .ok (ofPanel config (twice late)) := by
  have somebody : taking (twice late) ≠ [] := by
    rw [taking_twice]
    exact List.cons_ne_nil _ _
  have stakes : checkStakes (taking (twice late)) = .ok () := by
    rw [taking_twice, checkStakes_eq_ok_iff]
    norm_num [twice, Report.lone]
  exact aggregate_of_stakes config somebody stakes

theorem ofFn_priors_twice (late : ℝ) : List.ofFn (priors (twice late)) = [1, late] := by
  apply (List.ofFn_getElem_eq_map (taking (twice late)) Report.coefficient).trans
  rw [taking_twice]
  rfl

/-- Without damping nothing moves, because the first coefficient is at the upper end already. -/
theorem coefficientsAfter_twice {config : Config ℝ} (undamped : config.damping = 0) {late : ℝ}
    (first : config.maxCoefficient = 1) (low : config.minCoefficient ≤ late) (high : late ≤ 1)
    (k : ℕ) :
    (roundPanel (twice late)).coefficientsAfter config (priors (twice late)) k =
      priors (twice late) := by
  have range : ∀ i, config.minCoefficient ≤ priors (twice late) i ∧
      priors (twice late) i ≤ config.maxCoefficient := by
    intro i
    have inside : priors (twice late) i ∈ List.ofFn (priors (twice late)) :=
      List.mem_ofFn.mpr ⟨i, rfl⟩
    rw [ofFn_priors_twice, List.mem_pair] at inside
    rcases inside with same | same
    · rw [same, ← first]
      exact ⟨config.min_lt_max.le, le_rfl⟩
    · rw [same, first]
      exact ⟨low, high⟩
  obtain ⟨i, greatest⟩ : ∃ i, priors (twice late) i = 1 := by
    rw [← List.mem_ofFn, ofFn_priors_twice]
    exact List.mem_cons_self
  have : Nonempty (Fin (taking (twice late)).length) := ⟨i⟩
  have top : ⨆ i, priors (twice late) i = config.maxCoefficient := by
    apply le_antisymm (ciSup_le fun i => (range i).2)
    rw [first, ← greatest]
    exact Panel.le_iSup_of_finite _ i
  exact (roundPanel (twice late)).coefficientsAfter_of_undamped config undamped range top k

theorem entries_ofList_twice (late : ℝ) :
    (Table.ofList (byReputer (twice late) (priors (twice late)))).entries =
      [(⟨Address.usualHrp, [1]⟩, late)] := by
  have both : byReputer (twice late) (priors (twice late)) =
      [(⟨Address.usualHrp, [1]⟩, 1), (⟨Address.usualHrp, [1]⟩, late)] := by
    apply (List.ofFn_getElem_eq_map (taking (twice late)) fun report =>
      (report.reputer, report.coefficient)).trans
    rw [taking_twice]
    rfl
  rw [both]
  simp [Table.ofList, Table.put, Table.putEntry]

/-- A pass was made, something could move, and yet no coefficient that is returned is at the upper
end: the one that is there gives way to the same reputer's later one. -/
theorem greatest_below_max_of_repeated :
    Filled (twice (1 / 2)) ∧
    ∃ consensus, aggregate (.onePass 0 le_rfl zero_le_one) (twice (1 / 2)) = .ok consensus ∧
      consensus.participants ≠ [] ∧ consensus.passes = 1 ∧
      ¬Still (.onePass 0 le_rfl zero_le_one) (twice (1 / 2)) ∧
      ∀ entry ∈ consensus.coefficients.entries,
        entry.2 ≠ (Config.onePass 0 le_rfl zero_le_one).maxCoefficient := by
  set config := Config.onePass 0 le_rfl zero_le_one
  have returned := aggregate_twice config (1 / 2)
  have low : config.minCoefficient ≤ 1 / 2 := by
    change (0 : ℝ) ≤ 1 / 2
    norm_num
  have kept := coefficientsAfter_twice (show config.damping = 0 from rfl) rfl low (by norm_num)
  have stored : (ofPanel config (twice (1 / 2))).coefficients.entries =
      [(⟨Address.usualHrp, [1]⟩, 1 / 2)] := by
    rw [coefficients_of_aggregate returned, Panel.coefficients, kept]
    exact entries_ofList_twice _
  have passes : (roundPanel (twice (1 / 2))).passes config (priors (twice (1 / 2))) = 1 := by
    refine (roundPanel _).passes_of_go config (priors _) fun k _ => ?_
    exact not_lt.mpr (Real.iSup_nonneg fun i => abs_nonneg _)
  have filled : Filled (twice (1 / 2)) := by
    intro report inside _
    rcases List.mem_pair.mp inside with rfl | rfl <;> exact List.cons_ne_nil _ _
  refine ⟨filled, _, returned, ?_, passes, ?_, ?_⟩
  · rw [← keys_coefficients_of_aggregate returned, Table.keys, stored]
    simp
  · rintro ⟨-, zero⟩
    have first : Report.lone 1 1 1 1 ∈ taking (twice (1 / 2)) := by
      rw [taking_twice]
      exact List.mem_cons_self
    have moved := zero _ first
    rw [clamp_eq_within] at moved
    exact one_ne_zero ((Panel.within_of_mem config zero_le_one le_rfl).symm.trans moved)
  · intro entry inside
    rw [stored, List.mem_singleton] at inside
    rw [inside]
    change (1 / 2 : ℝ) ≠ 1
    norm_num

end Consensus

end RoundScoring
