import RoundScoring.Proofs.Consensus.Splitting

/-!
Rounds over the same losses go on where the last one ended. The coefficients that a consensus returns
lie in the range, so bringing them into it does nothing, and a round that starts from them and makes
no pass finds the same consensus again. Without a threshold that could stop them, the passes of two
rounds are those of one longer round; and passes that did stop are not resumed by allowing more.
-/

namespace RoundScoring.Consensus

open Scalar

section Settling

variable {R : Type}

def Config.allowing [Scalar R] (config : Config R) (passes : Nat) : Config R :=
  { config with maxPasses := passes }

theorem lossKeys_congr {reports reports' : List (Report R)}
    (same : reports'.map Report.coverage = reports.map Report.coverage) :
    lossKeys reports' = lossKeys reports := by
  have keys : ∀ reports : List (Report R), lossKeys reports =
      .ofList ((reports.map Report.coverage).flatMap fun coverage => coverage.losses.keys) := by
    intro reports
    rw [List.flatMap_map]
    rfl
  rw [keys, keys, same]

variable [Scalar R] {config : Config R} {keys : OrderedSet LossKey} {remaining done passes : Nat}
  {reports settled : List (Report R)}

theorem settle_allowing (config : Config R) (allowed : Nat) :
    settle (config.allowing allowed) keys remaining reports done =
      settle config keys remaining reports done := by
  induction remaining generalizing reports done with
  | zero => rfl
  | succ remaining ih =>
    unfold settle
    simp only [ih]
    rfl

theorem settle_of_stopped
    (settles : settle config keys remaining reports done = .ok (settled, passes))
    (stopped : passes < done + remaining) {more : Nat} (allowed : remaining ≤ more) :
    settle config keys more reports done = .ok (settled, passes) := by
  induction remaining generalizing reports done more with
  | zero =>
    cases settles
    exact absurd stopped (Nat.lt_irrefl _)
  | succ remaining ih =>
    obtain ⟨more, rfl⟩ := Nat.exists_eq_add_of_le' (Nat.zero_lt_succ remaining |>.trans_le allowed)
    obtain ⟨moved, passed, rest⟩ := Fault.bind_eq_ok_iff.mp settles
    unfold settle
    rw [passed]
    change (if _ then _ else _) = _
    split at rest
    next small =>
      rw [if_pos small]
      exact rest
    next large =>
      rw [if_neg large]
      exact ih rest (by omega) (by omega)

theorem settle_add_done (earlier : Nat)
    (settles : settle config keys remaining reports done = .ok (settled, passes)) :
    settle config keys remaining reports (earlier + done) = .ok (settled, earlier + passes) := by
  induction remaining generalizing reports done with
  | zero =>
    cases settles
    rfl
  | succ remaining ih =>
    obtain ⟨moved, passed, rest⟩ := Fault.bind_eq_ok_iff.mp settles
    unfold settle
    rw [passed]
    change (if _ then _ else _) = _
    split at rest
    next small =>
      rw [if_pos small]
      cases rest
      rfl
    next large =>
      rw [if_neg large]
      exact ih rest

theorem settle_append
    (goes : ∀ before after : List (Report R), ¬largestChange before after < config.convergenceThreshold)
    {middle : List (Report R)} {counted more : Nat}
    (settles : settle config keys remaining reports done = .ok (middle, counted))
    (further : settle config keys more middle counted = .ok (settled, passes)) :
    settle config keys (remaining + more) reports done = .ok (settled, passes) := by
  induction remaining generalizing reports done with
  | zero =>
    cases settles
    rw [Nat.zero_add]
    exact further
  | succ remaining ih =>
    obtain ⟨moved, passed, rest⟩ := Fault.bind_eq_ok_iff.mp settles
    rw [if_neg (goes _ _)] at rest
    rw [Nat.succ_add]
    unfold settle
    rw [passed]
    change (if _ then _ else _) = _
    rw [if_neg (goes _ _)]
    exact ih rest

end Settling

section Carrying

variable {config : Config ℝ} {reports settled : List (Report ℝ)} {consensus : Consensus ℝ}
  {passes : ℕ} {levels : List (LossKey × ℝ)}

theorem largestChange_nonneg (before after : List (Report ℝ)) : 0 ≤ largestChange before after := by
  unfold largestChange
  rw [← List.map_uncurry_zip_eq_zipWith]
  cases pairs : before.zip after with
  | nil => exact le_rfl
  | cons pair rest =>
    rw [List.map_cons, greatest_cons]
    refine le_trans ?_ ((foldl_larger_spec _ _).2 _ List.mem_cons_self)
    rw [Function.uncurry_apply_pair, absolute_eq_abs]
    exact abs_nonneg _

theorem taking_map_carried (consensus : Consensus ℝ) (reports : List (Report ℝ)) :
    taking (reports.map (Report.carried consensus)) =
      (taking reports).map (Report.carried consensus) := by
  unfold taking
  rw [List.filter_map]
  rfl

theorem taking_map_carried_ne_nil (consensus : Consensus ℝ) (somebody : taking reports ≠ []) :
    taking (reports.map (Report.carried consensus)) ≠ [] := by
  rw [taking_map_carried, ne_eq, List.map_eq_nil_iff]
  exact somebody

theorem left_map_carried (consensus : Consensus ℝ) (reports : List (Report ℝ)) :
    left (reports.map (Report.carried consensus)) = left reports := by
  unfold left
  rw [List.filter_map, List.map_map]
  rfl

theorem map_carried (distinct : (reports.map Report.reputer).Nodup)
    (returned : aggregate config reports = .ok consensus) :
    (taking reports).map (Report.carried consensus) =
      reportsAt (taking reports).get (finals config reports) := by
  unfold reportsAt
  conv_lhs => rw [← List.ofFn_get (taking reports), List.map_ofFn]
  congr 1
  funext i
  have stands : consensus.coefficients.get? ((taking reports).get i).reputer =
      some (finals config reports i) :=
    congrArg Standing.coefficient (standing_of_aggregate distinct returned i)
  simp only [Function.comp_apply, Report.carried, stands]
  rfl

theorem clamped_reportsAt {n : ℕ} (report : Fin n → Report ℝ) {c : Fin n → ℝ}
    (range : ∀ i, config.minCoefficient ≤ c i ∧ c i ≤ config.maxCoefficient) :
    (reportsAt report c).map (Report.clamped config) = reportsAt report c := by
  rw [map_reportsAt]
  unfold reportsAt
  congr 1
  funext i
  unfold Report.clamped
  rw [clamp_eq_within]
  change (report i).withCoefficient (Panel.within config (c i)) = _
  rw [Panel.within_of_mem config (range i).1 (range i).2]

noncomputable abbrev settledOf (config : Config ℝ) (reports : List (Report ℝ)) : List (Report ℝ) :=
  reportsAt (taking reports).get (finals config reports)

theorem taking_carried (distinct : (reports.map Report.reputer).Nodup)
    (returned : aggregate config reports = .ok consensus) :
    taking (reports.map (Report.carried consensus)) = settledOf config reports :=
  (taking_map_carried consensus reports).trans (map_carried distinct returned)

theorem settledOf_same (config : Config ℝ) (reports : List (Report ℝ)) :
    SameButCoefficients (taking reports) (settledOf config reports) := by
  unfold SameButCoefficients
  rw [map_reportsAt]
  exact List.ofFn_getElem_eq_map (taking reports) fun report => (report.coverage, report.stake)

theorem checkStakes_congr {reports' : List (Report ℝ)} (same : SameButCoefficients reports reports')
    (stakes : checkStakes reports = .ok ()) : checkStakes reports' = .ok () := by
  rw [checkStakes_eq_ok_iff] at stakes ⊢
  rw [same.map_stake]
  refine ⟨fun report inside => ?_, stakes.2⟩
  have listed := List.mem_map_of_mem (f := Report.stake) inside
  rw [same.map_stake] at listed
  obtain ⟨before, member, stake⟩ := List.mem_map.mp listed
  exact stake ▸ stakes.1 before member

theorem settles_carried_iff (distinct : (reports.map Report.reputer).Nodup)
    (returned : aggregate config reports = .ok consensus) (stakes : checkStakes (taking reports) = .ok ())
    {allowed : ℕ} {later : Consensus ℝ} :
    Concluded (config.allowing allowed) (reports.map (Report.carried consensus)) later settled passes
        levels ↔
      settle config (lossKeys (taking reports)) allowed (settledOf config reports) 0 =
          .ok (settled, passes) ∧
        levelsOf (lossKeys (taking reports)) settled = .ok levels ∧
        later = conclude levels settled (left reports) passes := by
  have same := settledOf_same config reports
  have keys := lossKeys_congr same.map_coverage
  have still : (settledOf config reports).map (Report.clamped (config.allowing allowed)) =
      settledOf config reports :=
    clamped_reportsAt _ ((roundPanel reports).coefficientsAfter_mem config (priors reports) _)
  constructor
  · rintro ⟨-, settles, leveled, concludes⟩
    rw [taking_carried distinct returned, keys] at settles leveled
    rw [still, settle_allowing] at settles
    rw [left_map_carried] at concludes
    exact ⟨settles, leveled, concludes⟩
  · rintro ⟨settles, leveled, concludes⟩
    refine ⟨?_, ?_, ?_, ?_⟩
    · rw [taking_carried distinct returned]
      exact checkStakes_congr same stakes
    · rw [taking_carried distinct returned, keys, still, settle_allowing]
      exact settles
    · rw [taking_carried distinct returned, keys]
      exact leveled
    · rw [left_map_carried]
      exact concludes

/-- How the rounds that could follow a round, or take its place, are related to it. -/
structure Composes (config : Config ℝ) (reports : List (Report ℝ)) (consensus : Consensus ℝ) :
    Prop where
  again : aggregate (config.allowing 0) (reports.map (Report.carried consensus)) =
    .ok { consensus with passes := 0 }
  further : config.convergenceThreshold ≤ 0 → ∀ first second : ℕ, ∃ earlier later,
    aggregate (config.allowing first) reports = .ok earlier ∧
    aggregate (config.allowing second) (reports.map (Report.carried earlier)) = .ok later ∧
    aggregate (config.allowing (first + second)) reports =
      .ok { later with passes := earlier.passes + later.passes }
  longer : consensus.passes < config.maxPasses → ∀ more, config.maxPasses ≤ more →
    aggregate (config.allowing more) reports = .ok consensus

theorem composes_of_nobody (config : Config ℝ) (nobody : taking reports = []) :
    Composes config reports (conclude [] [] (left reports) 0) := by
  have carried : ∀ (config : Config ℝ) consensus,
      aggregate config (reports.map (Report.carried consensus)) =
        .ok (conclude [] [] (left reports) 0) := by
    intro config consensus
    rw [aggregate_of_nobody, left_map_carried]
    rw [taking_map_carried, nobody]
    rfl
  exact ⟨carried _ _, fun _ _ _ => ⟨_, _, aggregate_of_nobody nobody, carried _ _,
    aggregate_of_nobody nobody⟩, fun _ _ _ => aggregate_of_nobody nobody⟩

theorem Concluded.again (distinct : (reports.map Report.reputer).Nodup)
    (somebody : taking reports ≠ [])
    (concluded : Concluded config reports consensus (settledOf config reports) passes levels) :
    aggregate (config.allowing 0) (reports.map (Report.carried consensus)) =
      .ok { consensus with passes := 0 } := by
  have returned := concluded.aggregate_eq_ok somebody
  have follows : Concluded (config.allowing 0) (reports.map (Report.carried consensus))
      { consensus with passes := 0 } (settledOf config reports) 0 levels := by
    refine (settles_carried_iff distinct returned concluded.stakes).mpr ⟨rfl, concluded.leveled, ?_⟩
    rw [concluded.concludes]
    rfl
  exact follows.aggregate_eq_ok (taking_map_carried_ne_nil consensus somebody)

theorem Concluded.further {first second count later : ℕ} {levels' : List (LossKey × ℝ)}
    {next : Consensus ℝ}
    (distinct : (reports.map Report.reputer).Nodup) (somebody : taking reports ≠ [])
    (never : config.convergenceThreshold ≤ 0)
    (concluded : Concluded (config.allowing first) reports consensus
      (settledOf (config.allowing first) reports) count levels)
    (goes_on : Concluded (config.allowing second) (reports.map (Report.carried consensus)) next
      settled later levels') :
    aggregate (config.allowing (first + second)) reports =
      .ok { next with passes := count + later } := by
  have returned := concluded.aggregate_eq_ok somebody
  obtain ⟨settles, leveled, concludes⟩ :=
    (settles_carried_iff distinct returned concluded.stakes).mp goes_on
  have goes : ∀ before after : List (Report ℝ),
      ¬largestChange before after < config.convergenceThreshold :=
    fun before after => not_lt.mpr (never.trans (largestChange_nonneg before after))
  have begins := concluded.settles
  rw [settle_allowing] at settles begins
  have whole := settle_append goes begins (settle_add_done count settles)
  have both : Concluded (config.allowing (first + second)) reports
      { next with passes := count + later } settled (count + later) levels' := by
    refine ⟨concluded.stakes, ?_, leveled, ?_⟩
    · rw [settle_allowing]
      exact whole
    · rw [concludes]
      rfl
  exact both.aggregate_eq_ok somebody

theorem Concluded.longer (somebody : taking reports ≠ [])
    (concluded : Concluded config reports consensus settled passes levels)
    (stopped : passes < config.maxPasses) {more : ℕ} (allowed : config.maxPasses ≤ more) :
    aggregate (config.allowing more) reports = .ok consensus := by
  have settles := settle_of_stopped concluded.settles (by omega) allowed
  refine Concluded.aggregate_eq_ok somebody ⟨concluded.stakes, ?_, concluded.leveled,
    concluded.concludes⟩
  rw [settle_allowing]
  exact settles

/-- A round is its own continuation, rounds add up to longer ones, and a round that stopped by itself
stands for every longer one. -/
theorem rounds_compose (distinct : (reports.map Report.reputer).Nodup)
    (returned : aggregate config reports = .ok consensus) : Composes config reports consensus := by
  rcases aggregate_eq_ok returned with ⟨nobody, rfl⟩ | ⟨somebody, stakes, rfl⟩
  · exact composes_of_nobody config nobody
  · have concluded := fun allowed => concluded_ofPanel (config.allowing allowed) stakes
    refine ⟨(concluded_ofPanel config stakes).again distinct somebody, fun never first second => ?_,
      fun stopped more allowed => (concluded_ofPanel config stakes).longer somebody stopped allowed⟩
    have earlier := (concluded first).aggregate_eq_ok somebody
    have same := taking_carried distinct earlier
    have somebody' := taking_map_carried_ne_nil (ofPanel (config.allowing first) reports) somebody
    have stakes' := checkStakes_congr (settledOf_same (config.allowing first) reports) stakes
    rw [← same] at stakes'
    have later := concluded_ofPanel (config.allowing second) stakes'
    exact ⟨_, _, earlier, later.aggregate_eq_ok somebody',
      (concluded first).further distinct somebody never later⟩

/-- No coefficient can move by the threshold, so the first of three passes is the last. -/
noncomputable def Config.loose : Config ℝ :=
  { Config.onePass 1 zero_le_one le_rfl with maxPasses := 3, convergenceThreshold := 1 + 1 }

theorem passes_loose (reports : List (Report ℝ)) :
    (roundPanel reports).passes .loose (priors reports) = 1 := by
  refine Panel.passes_of_stop _ _ _ (k := 0) (by decide) ?_ fun j early => absurd early j.not_lt_zero
  refine ((roundPanel reports).change_le .loose (priors reports) 0).trans_lt ?_
  change (1 - 0 : ℝ) < 1 + 1
  norm_num

/-- Two participants a power of ten apart, the second of which is listened to less at first. The one
pass of the first config may be followed by others; those of the second config stop early. -/
theorem rounds_of_two_compose :
    ([Report.lone 1 1 1 1, Report.lone 2 3 10 (1 / 2)].map Report.reputer).Nodup ∧
    (∃ consensus,
      aggregate (.onePass 1 zero_le_one le_rfl)
        [Report.lone 1 1 1 1, Report.lone 2 3 10 (1 / 2)] = .ok consensus ∧
      Composes (.onePass 1 zero_le_one le_rfl)
        [Report.lone 1 1 1 1, Report.lone 2 3 10 (1 / 2)] consensus) ∧
    ∃ consensus,
      aggregate .loose [Report.lone 1 1 1 1, Report.lone 2 3 10 (1 / 2)] = .ok consensus ∧
      consensus.passes < Config.loose.maxPasses ∧
      aggregate (Config.loose.allowing 5) [Report.lone 1 1 1 1, Report.lone 2 3 10 (1 / 2)] =
        .ok consensus ∧
      Composes .loose [Report.lone 1 1 1 1, Report.lone 2 3 10 (1 / 2)] consensus := by
  have distinct : ([Report.lone 1 1 1 1, Report.lone 2 3 10 (1 / 2)].map Report.reputer).Nodup :=
    nodup_reputers_lone (by decide) _ _ _ _ _ _
  have returned := fun config => aggregate_pair config
    (takesPart_lone 1 1 1 one_pos) (takesPart_lone 2 3 (1 / 2) (by norm_num : (0 : ℝ) < 10))
    one_pos zero_le_three
  have composes := rounds_compose distinct (returned .loose)
  have stopped : (ofPanel .loose [Report.lone 1 1 1 1, Report.lone 2 3 10 (1 / 2)]).passes <
      Config.loose.maxPasses :=
    (passes_loose _).trans_lt (by decide)
  refine ⟨distinct, ⟨_, returned _, rounds_compose distinct (returned _)⟩, _, returned _, stopped, ?_,
    composes⟩
  exact composes.longer stopped 5 (by decide)

end Carrying

end RoundScoring.Consensus
