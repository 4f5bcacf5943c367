import RoundScoring.Proofs.Binary64.Levels
import RoundScoring.Proofs.Consensus.Keys
import RoundScoring.Proofs.Rounds.Roster

/-!
Passes in binary64 numbers with the usual parameters. The best report moves to a quarter at least and
no report above one, so the greatest coefficient can be divided by; and what is rounded then does not
lift a coefficient above one again. So every pass can be made, and ends in the unit range.
-/

namespace RoundScoring.Consensus

open Binary64 Scalar

namespace Config

theorem value_damping_usual :
    (usual.damping).isFinite = true ∧ value usual.damping = 1 / 4 := by
  have known : content usual.damping = .finite false (2 ^ 52) (-54) := by decide
  obtain ⟨finite, worth⟩ := value_of_content known
  exact ⟨finite, worth.trans (by norm_num)⟩

theorem within_tolerance_usual : Within (1 / 128) (1 / 64) usual.tolerance := by
  have known : content usual.tolerance = .finite false 5764607523034235 (-59) := by decide
  obtain ⟨finite, worth⟩ := value_of_content known
  refine ⟨finite, ?_, ?_⟩ <;> rw [worth] <;> norm_num

end Config

theorem within_agreement {deviation : Float} (within : Within 0 (2 ^ 10) deviation) :
    Within (1 / 2 ^ 18) 1 (agreement .usual deviation) := by
  have tolerance := Config.within_tolerance_usual
  have sum : Within (value Config.usual.tolerance) (2 ^ 11 : ℤ)
      (deviation + Config.usual.tolerance) := by
    refine (roundsTo_add within.finite tolerance.finite).within
      ⟨representable_value tolerance.finite, representable_intCast (by norm_num), ?_, ?_⟩
    · exact le_add_of_nonneg_left within.low_le
    · push_cast
      linarith [within.le_high, tolerance.le_high]
  have above := tolerance.low_le
  have most := sum.le_high
  push_cast at most
  have positive : 0 < value (deviation + Config.usual.tolerance) := by linarith [sum.low_le]
  have least : Representable ((1 : ℤ) * 2 ^ (-18 : ℤ)) :=
    representable_dyadic (by norm_num) (by norm_num) (by norm_num)
  have power : ((1 : ℤ) * 2 ^ (-18 : ℤ) : ℝ) = 1 / 2 ^ 18 := by norm_num [zpow_neg]
  rw [power] at least
  have whole := representable_intCast (k := 1) (by norm_num)
  rw [Int.cast_one] at whole
  refine (roundsTo_div tolerance.finite sum.finite positive.ne').within ⟨least, whole, ?_, ?_⟩
  · rw [le_div_iff₀ positive]
    linarith
  · rw [div_le_one positive]
    exact sum.low_le

theorem within_clamp_of_within {low : ℝ} {x : Float} (within : Within low 1 x) :
    Within low 1 (clamp 0 1 x) := by
  obtain ⟨finite, worth⟩ := value_clamp value_zero.1 value_one.1 within.finite
  rw [value_zero.2, value_one.2] at worth
  refine ⟨finite, ?_, ?_⟩ <;> rw [worth]
  · exact le_min (le_max_of_le_left within.low_le) (within.low_le.trans within.le_high)
  · exact min_le_right _ _

theorem within_movedTowards {report : Report Float} (coefficient : Within 0 1 report.coefficient)
    {target : Float} {low : ℤ} (few : |low| ≤ 2 ^ 50) (within : Within low (1 : ℤ) target) :
    Within (low / 4) 1 (report.movedTowards .usual target).coefficient := by
  obtain ⟨finite, damping⟩ := Config.value_damping_usual
  have quarters : ∀ k : ℤ, |k| ≤ 2 ^ 50 → Representable (k / 4) := by
    intro k few
    have dyadic := representable_div_sixteen (k := k * 4) (by
      rw [abs_mul, show |(4 : ℤ)| = 4 from rfl]
      linarith)
    push_cast at dyadic
    rwa [show (k * 4 / 16 : ℝ) = k / 4 by ring] at dyadic
  have most := within.le_high
  push_cast at most
  have rest : (1 - Config.usual.damping).isFinite = true ∧
      value (1 - Config.usual.damping) = (3 : ℤ) / 4 := by
    have rounds := roundsTo_sub value_one.1 finite
    rw [value_one.2, damping, show (1 : ℝ) - 1 / 4 = (3 : ℤ) / 4 by norm_num] at rounds
    exact rounds.eq_of_representable (quarters 3 (by norm_num))
  have kept : Within ((0 : ℤ) / 4) ((3 : ℤ) / 4)
      ((1 - Config.usual.damping) * report.coefficient) := by
    refine (roundsTo_mul rest.1 coefficient.finite).within
      ⟨quarters 0 (by norm_num), quarters 3 (by norm_num), ?_, ?_⟩ <;> rw [rest.2] <;> push_cast
    · linarith [coefficient.low_le]
    · linarith [coefficient.le_high]
  have moved : Within (low / 4) ((1 : ℤ) / 4) (Config.usual.damping * target) := by
    refine (roundsTo_mul finite within.finite).within
      ⟨quarters low few, quarters 1 (by norm_num), ?_, ?_⟩ <;> rw [damping]
    · linarith [within.low_le]
    · push_cast
      linarith
  have lowKept := kept.low_le
  have highKept := kept.le_high
  have highMoved := moved.le_high
  push_cast at lowKept highKept highMoved
  have sum : Within (low / 4) ((4 : ℤ) / 4)
      ((1 - Config.usual.damping) * report.coefficient + Config.usual.damping * target) := by
    refine (roundsTo_add kept.finite moved.finite).within
      ⟨quarters low few, quarters 4 (by norm_num), ?_, ?_⟩
    · linarith [moved.low_le]
    · push_cast
      linarith
  exact within_clamp_of_within (sum.mono le_rfl (by norm_num))

theorem within_rescaled {reports : List (Report Float)}
    (coefficients : ∀ report ∈ reports, Within 0 1 report.coefficient)
    (top : ∃ report ∈ reports, 1 / 4 ≤ value report.coefficient) :
    ∀ report ∈ rescaled .usual reports, Within 0 1 report.coefficient := by
  obtain ⟨best, inside, quarter⟩ := top
  have somebody : reports.map Report.coefficient ≠ [] :=
    List.ne_nil_of_mem (List.mem_map_of_mem inside)
  obtain ⟨member, above⟩ := greatest_spec somebody
    (List.forall_mem_map.mpr fun report inside => (coefficients report inside).finite)
  obtain ⟨first, firstInside, firstIs⟩ := List.mem_map.mp member
  have unit := firstIs ▸ coefficients first firstInside
  have normal := quarter.trans (above _ (List.mem_map_of_mem inside))
  unfold rescaled
  dsimp only
  generalize greatest (reports.map Report.coefficient) = top at above unit normal
  have positive : 0 < value top := by linarith
  have some : (0 : Float) < top := by
    rw [lt_iff value_zero.1 unit.finite, value_zero.2]
    exact positive
  rw [if_pos some]
  refine List.forall_mem_map.mpr fun report inside => ?_
  have coefficient := coefficients report inside
  have below := above _ (List.mem_map_of_mem inside)
  have ratio : RoundsTo (Config.usual.maxCoefficient / top) (1 / value top) := by
    have rounds := roundsTo_div value_one.1 unit.finite positive.ne'
    rwa [value_one.2] at rounds
  have inverse : Within (1 : ℤ) (4 : ℤ) (Config.usual.maxCoefficient / top) := by
    refine ratio.within_int (by norm_num) (by norm_num) ?_ ?_
    · rw [Int.cast_one, one_le_div positive]
      exact unit.le_high
    · rw [div_le_iff₀ positive]
      push_cast
      linarith
  have rounds := roundsTo_mul coefficient.finite inverse.finite
  have low : 0 ≤ nearest (value report.coefficient * value (Config.usual.maxCoefficient / top)) := by
    refine nearest_nonneg (mul_nonneg coefficient.low_le (zero_le_one.trans ?_))
    exact_mod_cast inverse.low_le
  have high : nearest (value report.coefficient * value (Config.usual.maxCoefficient / top)) ≤ 1 := by
    rw [ratio.value_eq inverse.finite]
    exact nearest_mul_inverse_le below normal unit.le_high
  have finite : (report.coefficient * (Config.usual.maxCoefficient / top)).isFinite = true := by
    rw [rounds.isFinite_iff, abs_of_nonneg low]
    exact high.trans_lt (one_lt_zpow₀ one_lt_two (by norm_num))
  rw [← rounds.value_eq finite] at low high
  exact ⟨finite, low, high⟩

theorem pass_of_levelsOf {R : Type} [Scalar R] {config : Config R} {keys : OrderedSet LossKey}
    {reports : List (Report R)} {levels : List (LossKey × R)}
    (leveled : levelsOf keys reports = .ok levels) :
    pass config keys reports = .ok (rescaled config (reports.map fun report =>
      report.movedTowards config (agreement config (deviation levels report) /
        greatest (reports.map fun report => agreement config (deviation levels report))))) := by
  unfold pass
  rw [leveled]
  change Except.ok _ = _
  rw [List.map_map, List.map_map]
  rfl

structure Ready (high : ℝ) (keys : OrderedSet LossKey) (reports : List (Report Float)) : Prop where
  somebody : reports ≠ []
  few : reports.length ≤ 2 ^ 40
  backed : Backed reports
  reported : ∀ report ∈ reports, Bounded high report.coverage
  mem_keys : ∀ key, key ∈ keys ↔ ∃ report ∈ reports, key ∈ report.coverage.losses.keys

namespace Ready

variable {high : ℝ} {keys : OrderedSet LossKey} {reports : List (Report Float)}

theorem of_same {moved : List (Report Float)} (ready : Ready high keys reports)
    (same : SameButCoefficients reports moved)
    (coefficients : ∀ report ∈ moved, Within 0 1 report.coefficient) : Ready high keys moved := by
  have lengths : moved.length = reports.length := by
    have equal := congrArg List.length same.map_stake
    rwa [List.length_map, List.length_map] at equal
  have stakes : ∀ stake ∈ moved.map Report.stake, 0 < value stake := by
    rw [same.map_stake]
    exact List.forall_mem_map.mpr ready.backed.stakes
  have reported : ∀ coverage ∈ moved.map Report.coverage, Bounded high coverage := by
    rw [same.map_coverage]
    exact List.forall_mem_map.mpr ready.reported
  refine ⟨fun nobody => ?_, lengths ▸ ready.few, ⟨?_, ?_, coefficients⟩,
    List.forall_mem_map.mp reported, fun key => ?_⟩
  · rw [nobody] at lengths
    exact ready.somebody (List.eq_nil_of_length_eq_zero lengths.symm)
  · exact fun report inside => stakes _ (List.mem_map_of_mem inside)
  · rw [same.map_stake]
    exact ready.backed.finite
  · have covered : ∀ reports : List (Report Float),
        (∃ report ∈ reports, key ∈ report.coverage.losses.keys) ↔
          ∃ coverage ∈ reports.map Report.coverage, key ∈ coverage.losses.keys := by
      intro reports
      simp only [List.mem_map, exists_exists_and_eq_and]
    rw [ready.mem_keys key, covered, covered, same.map_coverage]

variable (least : 1 ≤ high) (most : high ≤ 4933 / 16)

include least most

theorem exists_levels (ready : Ready high keys reports) :
    ∃ levels, levelsOf keys reports = .ok levels ∧
      ∀ entry ∈ levels, Within (-647 / 2) (high * (1 + 1 / 2 ^ 11)) entry.2 :=
  exists_levelsOf least (by linarith) ready.few ready.backed ready.reported
    fun key inside => (ready.mem_keys key).mp inside

theorem exists_pass (ready : Ready high keys reports) :
    ∃ moved, pass .usual keys reports = .ok moved ∧ Ready high keys moved := by
  obtain ⟨levels, leveled, bounded⟩ := ready.exists_levels least most
  have keyed := map_fst_of_levelsOf leveled
  have agreed : ∀ report ∈ reports,
      Within (1 / 2 ^ 18) 1 (agreement .usual (deviation levels report)) := by
    intro report inside
    refine within_agreement (within_deviation (ready.reported report inside) most ?_ ?_ bounded)
    · rw [keyed]
      exact keys.nodup_toList
    · intro key own
      rw [keyed]
      exact (ready.mem_keys key).mpr ⟨report, inside, own⟩
  have passed : pass .usual keys reports = _ := pass_of_levelsOf leveled
  refine ⟨_, passed, ready.of_same (pass_same passed) ?_⟩
  have somebody : (reports.map fun report => agreement .usual (deviation levels report)) ≠ [] := by
    simpa using ready.somebody
  obtain ⟨member, above⟩ := greatest_spec somebody
    (List.forall_mem_map.mpr fun report inside => (agreed report inside).finite)
  obtain ⟨first, inside, best⟩ := List.mem_map.mp member
  rw [← best] at above ⊢
  have top := agreed first inside
  have positive : 0 < value (agreement .usual (deviation levels first)) :=
    lt_of_lt_of_le (by norm_num) top.low_le
  have target : ∀ report ∈ reports, ∀ low : ℤ, |low| ≤ 2 ^ 50 →
      (low : ℝ) * value (agreement .usual (deviation levels first)) ≤
        value (agreement .usual (deviation levels report)) →
      Within low (1 : ℤ) (agreement .usual (deviation levels report) /
        agreement .usual (deviation levels first)) := by
    intro report member low few ordered
    refine (roundsTo_div (agreed report member).finite top.finite positive.ne').within_int (by omega)
      (by norm_num) ?_ ?_
    · rwa [le_div_iff₀ positive]
    · rw [Int.cast_one, div_le_one positive]
      exact above _ (List.mem_map_of_mem member)
  refine within_rescaled (List.forall_mem_map.mpr fun report member => ?_)
    ⟨_, List.mem_map_of_mem inside, ?_⟩
  · have nonneg := (agreed report member).low_le
    have moved := within_movedTowards (ready.backed.coefficients report member) (by norm_num)
      (target report member 0 (by norm_num) (by push_cast; linarith))
    exact moved.mono (by norm_num) le_rfl
  · have moved := within_movedTowards (ready.backed.coefficients first inside) (by norm_num)
      (target first inside 1 (by norm_num) (by rw [Int.cast_one, one_mul]))
    have quarter := moved.low_le
    rwa [Int.cast_one] at quarter

end Ready

theorem exists_settle {high : ℝ} (least : 1 ≤ high) (most : high ≤ 4933 / 16)
    {keys : OrderedSet LossKey} {reports : List (Report Float)} (ready : Ready high keys reports)
    (remaining done : ℕ) :
    ∃ settled passes, settle .usual keys remaining reports done = .ok (settled, passes) ∧
      Ready high keys settled := by
  induction remaining generalizing reports done with
  | zero => exact ⟨reports, done, rfl, ready⟩
  | succ remaining ih =>
    obtain ⟨moved, passed, still⟩ := ready.exists_pass least most
    by_cases small : largestChange reports moved < Config.usual.convergenceThreshold
    · exact ⟨moved, done + 1, Fault.bind_eq_ok_iff.mpr ⟨moved, passed, if_pos small⟩, still⟩
    · obtain ⟨settled, passes, rest, ready⟩ := ih still (done + 1)
      have settles : settle .usual keys (remaining + 1) reports done = .ok (settled, passes) :=
        Fault.bind_eq_ok_iff.mpr ⟨moved, passed, (if_neg small).trans rest⟩
      exact ⟨settled, passes, settles, ready⟩

/-- Finite coefficients above zero, and levels that can be read back as losses. -/
structure Settled (high : ℝ) (consensus : Consensus Float) : Prop where
  nonneg : ∀ entry ∈ consensus.coefficients.entries, 0 ≤ entry.2
  levels : ∀ entry ∈ consensus.levels.entries,
    Within (-647 / 2) (high * (1 + 1 / 2 ^ 11)) entry.2

theorem checkStakes_of_usable {reports : List (Report Float)}
    (usable : Usable (reports.map Report.stake)) : checkStakes reports = .ok () := by
  have negative : ¬∃ report ∈ reports, report.stake < 0 := by
    rintro ⟨report, inside, below⟩
    have member := List.mem_map_of_mem (f := Report.stake) inside
    rw [lt_iff ((value_sum usable.finite).1 _ member) value_zero.1, value_zero.2] at below
    exact below.not_ge (usable.nonneg _ member)
  have nothing : ¬(reports.map Report.stake).sum ≤ 0 := by
    rw [le_iff usable.finite value_zero.1, value_zero.2, not_le]
    exact usable.positive
  unfold checkStakes
  rw [if_neg negative, if_neg nothing]

section Aggregate

variable {high : ℝ} {reports : List (Report Float)} (few : (taking reports).length ≤ 2 ^ 40)
  (stakes : ∀ report ∈ taking reports, 0 < value report.stake)
  (finite : ((taking reports).map Report.stake).sum.isFinite = true)
  (coefficients : ∀ report ∈ taking reports, 0 ≤ report.coefficient)
  (reported : ∀ report ∈ taking reports, Bounded high report.coverage)

include few stakes finite coefficients reported

theorem ready_clamped (somebody : taking reports ≠ []) :
    Ready high (lossKeys (taking reports)) ((taking reports).map (Report.clamped .usual)) := by
  refine ⟨by simpa using somebody, by simpa using few, ⟨List.forall_mem_map.mpr stakes, ?_, ?_⟩,
    List.forall_mem_map.mpr reported, fun key => ?_⟩
  · rw [List.map_map]
    exact finite
  · refine List.forall_mem_map.mpr fun report inside => ?_
    have clamped := within_clamp value_zero.1 value_one.1 (by simp [value_zero.2, value_one.2])
      (coefficients report inside)
    rwa [value_zero.2, value_one.2] at clamped
  · rw [mem_lossKeys]
    simp only [List.mem_map, exists_exists_and_eq_and, coverage_clamped]

theorem exists_aggregate (least : 1 ≤ high) (most : high ≤ 4933 / 16) :
    ∃ consensus, aggregate .usual reports = .ok consensus ∧ Settled high consensus := by
  by_cases nobody : taking reports = []
  · refine ⟨_, aggregate_of_nobody nobody, ?_, ?_⟩ <;> intro entry inside <;> cases inside
  · have ready := ready_clamped few stakes finite coefficients reported nobody
    have usable := ready.backed.usable_stakes ready.somebody
    rw [List.map_map] at usable
    obtain ⟨settled, passes, settles, ready⟩ :=
      exists_settle least most ready Config.usual.maxPasses 0
    obtain ⟨levels, leveled, bounded⟩ := ready.exists_levels least most
    have concluded : Concluded .usual reports (conclude levels settled (left reports) passes) settled
      passes levels := ⟨checkStakes_of_usable usable, settles, leveled, rfl⟩
    refine ⟨_, concluded.aggregate_eq_ok nobody, ?_, fun entry inside => ?_⟩
    · intro entry inside
      obtain ⟨report, member, rfl⟩ := List.mem_map.mp (Table.mem_of_mem_entries_ofList inside)
      have coefficient := ready.backed.coefficients report member
      rw [le_iff value_zero.1 coefficient.finite, value_zero.2]
      exact coefficient.low_le
    · exact bounded entry (Table.mem_of_mem_entries_ofList inside)

end Aggregate

end RoundScoring.Consensus
