import RoundScoring.Proofs.Binary64.Halvings
import RoundScoring.Proofs.Binary64.Passes
import RoundScoring.Proofs.Failing

/-!
Which losses can stop a round in binary64 numbers. Whatever reputers report, a consensus is
computed, the losses that its levels are read back as are above zero, and workers are scored by
them. Only a level that was rounded up can be too large to be read back, and for that a loss above
1e308 must have been reported.
-/

namespace RoundScoring

open Binary64

namespace Consensus

section ReadBack

variable {R : Type} [Scalar R]

theorem within_toBundle (consensus : Consensus R) (topic : Int) :
    Fault.Within (· = .overflow) (consensus.toBundle topic) :=
  consensus.within_losses.bind fun _ _ => Fault.within_ok _

theorem exists_toBundle_of_powers {consensus : Consensus R}
    (powers : ∀ entry ∈ consensus.levels.entries, ∃ loss, Scalar.powerOfTen? entry.2 = some loss)
    (topic : Int) : ∃ network, consensus.toBundle topic = .ok network := by
  obtain ⟨losses, computed⟩ : ∃ losses, consensus.losses = .ok losses := by
    refine Fault.exists_mapM_eq_ok fun entry inside => ?_
    obtain ⟨loss, power⟩ := powers entry inside
    dsimp only
    rw [power]
    exact ⟨_, rfl⟩
  exact Fault.exists_bind_eq_ok computed ⟨_, rfl⟩

end ReadBack

namespace Settled

variable {high : ℝ} {consensus : Consensus Float} (settled : Settled high consensus)

include settled

theorem isLoss (most : high ≤ 4933 / 16) {key : LossKey} {loss : Float}
    (leveled : consensus.LevelOf key loss) : Scalar.IsLoss loss := by
  obtain ⟨level, known, power⟩ := leveled
  have within := settled.levels (key, level) (Table.mem_entries_of_get? known)
  rcases powerOfTen?_cases within.finite within.low_le (by linarith [within.le_high]) with
    none | ⟨read, some, finite, positive⟩
  · cases power.symm.trans none
  · cases power.symm.trans some
    exact isLoss_iff.mpr ⟨finite, positive⟩

theorem exists_toBundle (most : high ≤ 4929 / 16) (topic : Int) :
    ∃ network, consensus.toBundle topic = .ok network := by
  refine exists_toBundle_of_powers (fun entry inside => ?_) topic
  have within := settled.levels entry inside
  obtain ⟨loss, power, -⟩ :=
    powerOfTen?_of_le within.finite within.low_le (by linarith [within.le_high])
  exact ⟨loss, power⟩

end Settled

end Consensus

namespace Coverage

variable {required : Option String} {roster : OrderedSet Address} {reputer : Address}
  {bundle : Bundle Float} {coverage : Coverage Float}

theorem length_entries_le (filtered : filter required roster reputer bundle = .ok coverage) :
    coverage.losses.entries.length ≤ 2 + 3 * roster.toList.length := by
  have inside : coverage.losses.keys ⊆ Category.all.flatMap (LossKey.within roster) := by
    intro key own
    obtain ⟨category, -, member⟩ := (mem_keys_of_filter filtered).mp own
    exact List.mem_flatMap.mpr ⟨category, Category.mem_all category, member⟩
  have count := (List.subperm_of_subset coverage.losses.distinct inside).length_le
  have all : (Category.all.flatMap (LossKey.within roster)).length = 2 + 3 * roster.toList.length := by
    simp only [Category.all, Category.wholes, Category.perWorkers, LossKey.within, List.map_cons,
      List.map_nil, List.cons_append, List.nil_append, List.flatMap_cons, List.flatMap_nil,
      List.length_cons, List.length_append, List.length_map, List.length_nil]
    omega
  rwa [all, List.length_map] at count

theorem bounded_of_filter {high : ℝ} (filtered : filter required roster reputer bundle = .ok coverage)
    (small : roster.toList.length ≤ 1024) (eligible : coverage.hasEligible)
    (logs : ∀ loss, bundle.Reports loss → Scalar.IsLoss loss → value (logarithm loss) ≤ high) :
    Consensus.Bounded high coverage where
  filled := losses_ne_nil_of_filter filtered eligible
  few := (length_entries_le filtered).trans (by omega)
  proper := proper_of_filter filtered
  le_high entry inside :=
    logs entry.2 (reports_of_filter filtered entry inside) (proper_of_filter filtered entry inside)

end Coverage

theorem Ledger.coefficient_nonneg (ledger : Ledger Float) (topic : ℤ) (reputer : Address) :
    0 ≤ ledger.coefficient topic reputer := by
  unfold coefficient
  split
  next coefficient _ => exact coefficient.nonneg
  next =>
    have zero := value_zero.2.le.trans within_one.low_le
    exact (le_iff value_zero.1 value_one.1).mpr zero

theorem Round.exists_reports {R : Type} [Scalar R] {policy : Policy R} {topic : ℤ} {ledger : Ledger R}
    {roster : OrderedSet Address} {reputers : List (Address × Bundle R)} {stakes : List R}
    (staked : List.Forall₂ (fun pair stake => ledger.stakes.get? (topic, pair.1) = some stake)
      reputers stakes)
    (filtered : ∀ pair ∈ reputers, ∃ coverage,
      Coverage.filter policy.required roster pair.1 pair.2 = .ok coverage) :
    ∃ reports, List.Forall₂ (Reported policy topic ledger roster) reputers reports ∧
      reports.map Consensus.Report.stake = stakes := by
  induction staked with
  | nil => exact ⟨[], .nil, rfl⟩
  | @cons pair stake reputers stakes known _ ih =>
    obtain ⟨first, others⟩ := List.forall_mem_cons.mp filtered
    obtain ⟨coverage, counted⟩ := first
    obtain ⟨reports, each, same⟩ := ih others
    exact ⟨⟨coverage, stake, ledger.coefficient topic pair.1⟩ :: reports,
      .cons ⟨known, rfl, counted⟩ each, congrArg (stake :: ·) same⟩

/-- A round that nothing but the losses in its bundles can stop: the keeper knows what it is asked for,
and all reputers and workers can be read. Close to the largest number, whether the sum of the stakes
is finite may depend on the order in which they are added, which is not modelled. -/
structure Round.Posed (engine : Engine Float) (topic block : Int)
    (submissions : List (Submission Float)) : Prop where
  usual : engine.policy.consensus = .usual
  working : engine.keeper.outage = none
  unscored : ∀ kind, engine.keeper.ledger.Unscored kind topic block
  few : submissions.length ≤ 2 ^ 40
  roster : ∃ roster, engine.keeper.ledger.rosters.get? topic = some roster ∧
    roster.toList.length ≤ 1024
  reputers : ∃ reputers stakes,
    readReputers engine.policy.required submissions = .ok reputers ∧
    List.Forall₂ (fun pair stake => engine.keeper.ledger.stakes.get? (topic, pair.1) = some stake)
      reputers stakes ∧
    (∀ stake ∈ stakes, 0 < stake) ∧ stakes.sum.isFinite = true
  workers : ∀ submission ∈ submissions, ∀ category, ∃ values,
    submission.bundle.valuesFor engine.policy.required category = .ok values

namespace Round.Posed

variable {engine : Engine Float} {topic block : Int} {submissions : List (Submission Float)}
  (posed : Posed engine topic block submissions)

include posed

theorem exists_computed {high : ℝ} (least : 1 ≤ high) (most : high ≤ 4933 / 16)
    (logs : ∀ submission ∈ submissions, ∀ loss, submission.bundle.Reports loss →
      Scalar.IsLoss loss → value (logarithm loss) ≤ high) :
    ∃ consensus reputers roster reports, roster.toList.length ≤ 1024 ∧
      Computed engine.policy topic submissions engine.keeper.ledger consensus reputers roster
        reports ∧
      Consensus.Settled high consensus := by
  obtain ⟨roster, known, small⟩ := posed.roster
  obtain ⟨reputers, stakes, read, staked, positive, finite⟩ := posed.reputers
  have sent := readReputers_eq_ok read
  have origin : ∀ pair ∈ reputers, ∃ submission ∈ submissions, pair.2 = submission.bundle := by
    intro pair inside
    obtain ⟨submission, member, -, same⟩ := exists_left_of_forall₂ sent inside
    exact ⟨submission, member, same⟩
  have filtered : ∀ pair ∈ reputers, ∃ coverage,
      Coverage.filter engine.policy.required roster pair.1 pair.2 = .ok coverage := by
    intro pair inside
    obtain ⟨submission, member, same⟩ := origin pair inside
    choose values found using posed.workers submission member
    rw [same]
    exact ⟨_, Coverage.filter_eq_ok_iff.mpr ⟨values, found, rfl⟩⟩
  obtain ⟨reports, reported, staking⟩ := exists_reports staked filtered
  have part : (Consensus.taking reports).Sublist reports := List.filter_sublist
  have worth : ∀ stake ∈ stakes, 0 < value stake := by
    intro stake inside
    have above := positive stake inside
    rwa [lt_iff value_zero.1 ((value_sum finite).1 stake inside), value_zero.2] at above
  have count : reports.length = submissions.length := (sent.length_eq.trans reported.length_eq).symm
  have positives : ∀ report ∈ Consensus.taking reports, 0 < value report.stake := by
    intro report inside
    exact worth _ (staking ▸ List.mem_map_of_mem (part.subset inside))
  have sum : ((Consensus.taking reports).map Consensus.Report.stake).sum.isFinite = true := by
    refine isFinite_sum_of_sublist (part.map _) ?_ ?_ <;> rw [staking]
    · exact fun stake inside => (worth stake inside).le
    · exact finite
  have priors : ∀ report ∈ Consensus.taking reports, 0 ≤ report.coefficient := by
    intro report inside
    obtain ⟨pair, -, -, listened, -⟩ := exists_left_of_forall₂ reported (part.subset inside)
    rw [listened]
    exact engine.keeper.ledger.coefficient_nonneg topic pair.1
  have bounded : ∀ report ∈ Consensus.taking reports, Consensus.Bounded high report.coverage := by
    intro report inside
    obtain ⟨member, takes⟩ := List.mem_filter.mp inside
    obtain ⟨pair, listed, -, -, filtered⟩ := exists_left_of_forall₂ reported member
    obtain ⟨submission, sender, same⟩ := origin pair listed
    rw [same] at filtered
    exact Coverage.bounded_of_filter filtered small (Bool.and_eq_true_iff.mp takes).1
      (logs submission sender)
  obtain ⟨consensus, aggregated, settled⟩ := Consensus.exists_aggregate
    ((part.length_le.trans count.le).trans posed.few) positives sum priors bounded least most
  rw [← posed.usual] at aggregated
  exact ⟨consensus, reputers, roster, reports, small, ⟨read, known, reported, aggregated⟩, settled⟩

theorem scoreRound_of_computed {high : ℝ} (most : high ≤ 4933 / 16) {consensus : Consensus Float}
    {reputers : List (Address × Bundle Float)} {roster : OrderedSet Address}
    {reports : List (Consensus.Report Float)} (small : roster.toList.length ≤ 1024)
    (computed : Computed engine.policy topic submissions engine.keeper.ledger consensus reputers
      roster reports) (settled : Consensus.Settled high consensus) :
    (∃ round after, engine.scoreRound topic block submissions none = (.ok round, after)) ∨
      (consensus.toBundle topic = .error .overflow ∧
        ∃ after, engine.scoreRound topic block submissions none = (.error .overflow, after)) := by
  have shares : Round.SharesUpTo Float roster := by
    intro n few
    obtain ⟨factor, left, share, -⟩ := Loss.exists_uniqueness_natCast (few.trans small)
    exact ⟨factor, left, share⟩
  cases made : consensus.toBundle topic with
  | ok network =>
    obtain ⟨round, after, returned, -⟩ := exists_scoreRound_of_network posed.working computed
      posed.unscored settled.nonneg made (fun _ _ => settled.isLoss most) shares
    exact .inl ⟨round, after, returned⟩
  | error fault =>
    obtain rfl := consensus.within_toBundle topic fault made
    exact .inr ⟨rfl, exists_scoreRound_error_of_network posed.working computed
      (posed.unscored .reputer) settled.nonneg made⟩

theorem scoreRound_cases :
    (∃ round after, engine.scoreRound topic block submissions none = (.ok round, after)) ∨
      ∃ after, engine.scoreRound topic block submissions none = (.error .overflow, after) := by
  obtain ⟨consensus, reputers, roster, reports, small, computed, settled⟩ :=
    posed.exists_computed (show (1 : ℝ) ≤ 4933 / 16 by norm_num) le_rfl fun _ _ loss _ proper => by
      obtain ⟨finite, positive⟩ := isLoss_iff.mp proper
      have high := (within_logarithm finite positive).le_high
      push_cast at high
      exact high
  exact (posed.scoreRound_of_computed le_rfl small computed settled).imp_right And.right

theorem exists_scoreRound_of_le (bounded : ∀ submission ∈ submissions, ∀ loss,
      submission.bundle.Reports loss → loss.isFinite = true → loss ≤ 1e308) :
    ∃ round after, engine.scoreRound topic block submissions none = (.ok round, after) := by
  obtain ⟨consensus, reputers, roster, reports, small, computed, settled⟩ :=
    posed.exists_computed (show (1 : ℝ) ≤ 4929 / 16 by norm_num) (by norm_num)
      fun submission inside loss reported proper => by
        obtain ⟨finite, positive⟩ := isLoss_iff.mp proper
        have high := (within_logarithm_of_le finite positive
          (bounded submission inside loss reported finite)).le_high
        push_cast at high
        exact high
  obtain ⟨network, made⟩ := settled.exists_toBundle le_rfl topic
  refine (posed.scoreRound_of_computed (by norm_num) small computed settled).resolve_right ?_
  rintro ⟨failed, -⟩
  rw [made] at failed
  cases failed

end Round.Posed

/-- Whatever losses are reported, a round with the usual parameters returns, unless a finite loss
above 1e308 is among them; and even then it can only be stopped by an overflow. -/
theorem only_huge_losses_stop_a_round {engine : Engine Float} {topic block : Int}
    {submissions : List (Round.Submission Float)}
    (posed : Round.Posed engine topic block submissions) :
    (∃ round after, engine.scoreRound topic block submissions none = (.ok round, after)) ∨
      ((∃ after, engine.scoreRound topic block submissions none = (.error .overflow, after)) ∧
        ∃ submission ∈ submissions, ∃ loss, submission.bundle.Reports loss ∧
          loss.isFinite = true ∧ 1e308 < loss) := by
  by_cases huge : ∃ submission ∈ submissions, ∃ loss, submission.bundle.Reports loss ∧
      loss.isFinite = true ∧ 1e308 < loss
  · exact posed.scoreRound_cases.imp_right fun stopped => ⟨stopped, huge⟩
  · refine .inl (posed.exists_scoreRound_of_le fun submission inside loss reported finite => ?_)
    have limit : (1e308 : Float).isFinite = true := by decide +kernel
    rw [le_iff finite limit, ← not_lt, ← lt_iff limit finite]
    exact fun above => huge ⟨submission, inside, loss, reported, finite, above⟩

def Engine.pair : Engine Float where
  keeper := { ledger := {
    stakes := .ofList [((1, .sample 1), 1), ((1, .sample 2), 1)]
    rosters := .ofList [(1, .empty)] } }
  policy := { required := some Address.usualHrp, consensus := .usual }

def Round.Submission.pair (combined naive : Float) : List (Round.Submission Float) :=
  [⟨(Address.sample 1).text, ⟨1, some combined, none, [], [], []⟩⟩,
    ⟨(Address.sample 2).text, ⟨1, none, some naive, [], [], []⟩⟩]

theorem Round.posed_pair (combined naive : Float) :
    Posed .pair 1 1 (Submission.pair combined naive) where
  usual := rfl
  working := rfl
  unscored kind key inside := by cases kind <;> cases inside
  few := (by norm_num : 2 ≤ 2 ^ 40)
  roster := ⟨.empty, rfl, by decide⟩
  reputers := by
    refine ⟨[(.sample 1, ⟨1, some combined, none, [], [], []⟩),
      (.sample 2, ⟨1, none, some naive, [], [], []⟩)], [1, 1], ?_, .cons rfl (.cons rfl .nil), ?_, ?_⟩
    · change readReputers (some Address.usualHrp) (Submission.pair combined naive) = _
      unfold readReputers Submission.pair readAccount
      simp only [List.mapM_cons, List.mapM_nil, Address.parse_sample]
      rfl
    · decide
    · decide
  workers submission inside category := by
    refine ⟨.empty, ?_⟩
    unfold Submission.pair at inside
    rcases List.mem_cons.mp inside with rfl | inside
    · cases category <;> rfl
    · rw [List.mem_singleton.mp inside]
      cases category <;> rfl

theorem Round.eq_of_reports_pair {combined naive loss : Float} {submission : Submission Float}
    (inside : submission ∈ Submission.pair combined naive)
    (reported : submission.bundle.Reports loss) : loss = combined ∨ loss = naive := by
  unfold Submission.pair at inside
  rcases List.mem_cons.mp inside with rfl | inside
  · rcases reported with ⟨category, known⟩ | ⟨category, entry, listed, -⟩
    · cases category <;> cases known
      exact .inl rfl
    · cases category <;> cases listed
  · rw [List.mem_singleton.mp inside] at reported
    rcases reported with ⟨category, known⟩ | ⟨category, entry, listed, -⟩
    · cases category <;> cases known
      exact .inr rfl
    · cases category <;> cases listed

/-- The least number and 1e308 are reported without harm. -/
theorem extreme_losses_stop_no_round :
    Round.Posed .pair 1 1 (Round.Submission.pair 5e-324 1e308) ∧
      ∃ round after, Engine.pair.scoreRound 1 1 (Round.Submission.pair 5e-324 1e308) none =
        (.ok round, after) := by
  have posed := Round.posed_pair 5e-324 1e308
  refine ⟨posed, (only_huge_losses_stop_a_round posed).resolve_right ?_⟩
  rintro ⟨-, submission, inside, loss, reported, -, above⟩
  rcases Round.eq_of_reports_pair inside reported with rfl | rfl
  · exact absurd above (by decide +kernel)
  · exact absurd above (by decide +kernel)

/-- The logarithm of the largest number is rounded up, and its power is no number any more. -/
theorem largest_loss_stops_a_round :
    Round.Posed .pair 1 1 (Round.Submission.pair 1 1.7976931348623157e308) ∧
      ∃ after, Engine.pair.scoreRound 1 1 (Round.Submission.pair 1 1.7976931348623157e308) none =
        (.error .overflow, after) := by
  have posed := Round.posed_pair 1 1.7976931348623157e308
  refine ⟨posed, posed.scoreRound_cases.resolve_left ?_⟩
  rintro ⟨round, after, returned⟩
  have fails : (Engine.pair.scoreRound 1 1
      (Round.Submission.pair 1 1.7976931348623157e308) none).1.isOk = false := by
    decide +kernel
  rw [returned] at fails
  cases fails

end RoundScoring
