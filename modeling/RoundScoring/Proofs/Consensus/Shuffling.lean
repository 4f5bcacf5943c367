import RoundScoring.Proofs.Consensus.Splitting

/-!
The order of submission does not matter. Reports may come in any order, and each may list its losses in
any order: the round fails alike, or it comes to the same levels in the same number of passes, everyone
stands as before, and only the order in which reputers are listed is that of their reports. A panel has
no order among its participants, so all there is to show is who stands for whom.
-/

namespace RoundScoring

namespace Consensus

/-- The same report, whose losses may be listed in another order. -/
structure Report.Relisted {R : Type} (report report' : Report R) : Prop where
  reputer : report'.reputer = report.reputer
  eligible : report'.coverage.eligible = report.coverage.eligible
  excluded : report'.coverage.excluded = report.coverage.excluded
  losses : report.coverage.losses.entries.Perm report'.coverage.losses.entries
  stake : report'.stake = report.stake
  coefficient : report'.coefficient = report.coefficient

/-- The same reports in another order, each with its losses in another order. -/
def Shuffled {R : Type} (reports reports' : List (Report R)) : Prop :=
  ∃ reordered, reports.Perm reordered ∧ List.Forall₂ Report.Relisted reordered reports'

/-- A consensus of reports that come in the order of the second list, next to one of the same reports
in another order. -/
structure SameUpToOrder (reports' : List (Report ℝ)) (before after : Consensus ℝ) : Prop where
  passes : after.passes = before.passes
  levels : after.levels = before.levels
  standing : ∀ reputer, after.standing reputer = before.standing reputer
  participants : before.participants.Perm after.participants
  excluded : before.excluded.Perm after.excluded
  participants_order : after.participants =
    (reports'.map Report.reputer).filter (· ∈ before.participants)
  excluded_order : after.excluded = (reports'.map Report.reputer).filter (· ∈ before.excluded)

theorem Report.Relisted.alike {report report' : Report ℝ} (relisted : report.Relisted report') :
    report'.Alike report where
  lossAt? key := (Table.get?_of_perm relisted.losses key).symm
  eligible := relisted.eligible
  coefficient := relisted.coefficient

theorem Report.Relisted.takesPart {R : Type} [Scalar R] {report report' : Report R}
    (relisted : report.Relisted report') : report'.takesPart = report.takesPart := by
  unfold Report.takesPart Coverage.hasEligible
  rw [relisted.eligible, relisted.losses.all_eq]

theorem filter_of_relisted {R : Type} {reports reports' : List (Report R)}
    (each : List.Forall₂ Report.Relisted reports reports') {kept : Report R → Bool}
    (agree : ∀ report report', report.Relisted report' → kept report' = kept report) :
    List.Forall₂ Report.Relisted (reports.filter kept) (reports'.filter kept) := by
  refine List.rel_filter ?_ each
  intro report report' relisted
  dsimp only
  rw [agree report report' relisted]

namespace Shuffled

variable {reports reports' : List (Report ℝ)} (shuffled : Shuffled reports reports')

include shuffled

theorem exists_before {report' : Report ℝ} (inside : report' ∈ reports') :
    ∃ report ∈ reports, report.Relisted report' := by
  obtain ⟨reordered, perm, each⟩ := shuffled
  obtain ⟨report, member, relisted⟩ := exists_left_of_forall₂ each inside
  exact ⟨report, perm.mem_iff.mpr member, relisted⟩

theorem exists_after {report : Report ℝ} (inside : report ∈ reports) :
    ∃ report' ∈ reports', report.Relisted report' := by
  obtain ⟨reordered, perm, each⟩ := shuffled
  exact exists_right_of_forall₂ each (perm.mem_iff.mp inside)

theorem map_perm {α : Type} {value : Report ℝ → α}
    (agree : ∀ report report' : Report ℝ, report.Relisted report' → value report' = value report) :
    (reports.map value).Perm (reports'.map value) := by
  obtain ⟨reordered, perm, each⟩ := shuffled
  rw [map_eq_map_of_forall₂ (each.imp agree)]
  exact perm.map value

theorem filter {kept : Report ℝ → Bool}
    (agree : ∀ report report' : Report ℝ, report.Relisted report' → kept report' = kept report) :
    Shuffled (reports.filter kept) (reports'.filter kept) := by
  obtain ⟨reordered, perm, each⟩ := shuffled
  exact ⟨reordered.filter kept, perm.filter kept, filter_of_relisted each agree⟩

theorem taking : Shuffled (taking reports) (taking reports') :=
  shuffled.filter fun _ _ => Report.Relisted.takesPart

theorem distinct (once : (reports.map Report.reputer).Nodup) :
    (reports'.map Report.reputer).Nodup :=
  (shuffled.map_perm fun _ _ => Report.Relisted.reputer).nodup_iff.mp once

theorem checkStakes : checkStakes reports' = checkStakes reports := by
  have stakes := shuffled.map_perm fun _ _ => Report.Relisted.stake
  unfold Consensus.checkStakes
  simp only [exists_stake_neg_iff, stakes.mem_iff, stakes.sum_eq]

theorem map_filter (once : (reports.map Report.reputer).Nodup) {kept : Report ℝ → Bool}
    (agree : ∀ report report' : Report ℝ, report.Relisted report' → kept report' = kept report) :
    (reports'.filter kept).map Report.reputer = (reports'.map Report.reputer).filter
      (· ∈ (reports.filter kept).map Report.reputer) := by
  rw [List.filter_map]
  refine congrArg _ (List.filter_congr fun report' inside => ?_)
  obtain ⟨report, member, relisted⟩ := shuffled.exists_before inside
  rw [agree report report' relisted, Bool.eq_iff_iff, Function.comp_apply, decide_eq_true_iff,
    List.mem_map, relisted.reputer]
  constructor
  · exact fun keeps => ⟨report, List.mem_filter.mpr ⟨member, keeps⟩, rfl⟩
  · rintro ⟨other, found, same⟩
    obtain ⟨listed, keeps⟩ := List.mem_filter.mp found
    rwa [List.inj_on_of_nodup_map once member listed same.symm]

theorem exists_stands : ∃ stands : Fin reports'.length → Fin reports.length, ∀ j,
    (reports.get (stands j)).Relisted (reports'.get j) := by
  have found : ∀ j : Fin reports'.length, ∃ i : Fin reports.length,
      (reports.get i).Relisted (reports'.get j) := by
    intro j
    obtain ⟨report, inside, relisted⟩ := shuffled.exists_before (List.get_mem reports' j)
    obtain ⟨i, rfl⟩ := List.get_of_mem inside
    exact ⟨i, relisted⟩
  choose stands found using found
  exact ⟨stands, found⟩

theorem exists_only (once : (reports.map Report.reputer).Nodup)
    {stands : Fin reports'.length → Fin reports.length}
    (stand : ∀ j, (reports.get (stands j)).Relisted (reports'.get j)) (i : Fin reports.length) :
    ∃ j, ∀ k, stands k = i ↔ k = j := by
  obtain ⟨report', inside, relisted⟩ := shuffled.exists_after (List.get_mem reports i)
  obtain ⟨j, rfl⟩ := List.get_of_mem inside
  refine ⟨j, fun k => ⟨?_, ?_⟩⟩
  · rintro rfl
    exact get_injective (shuffled.distinct once) ((stand k).reputer.trans relisted.reputer.symm)
  · rintro rfl
    exact get_injective once ((stand k).reputer.symm.trans relisted.reputer)

theorem exists_merges (once : (reports.map Report.reputer).Nodup)
    (stake_nonneg : ∀ i, 0 ≤ (reports.get i).stake) :
    ∃ stands, Panel.Merges stands (panelOf reports'.get) (panelOf reports.get) ∧
      ∀ j, (reports.get (stands j)).Relisted (reports'.get j) := by
  obtain ⟨stands, stand⟩ := shuffled.exists_stands
  have only := shuffled.exists_only once stand
  refine ⟨stands, ⟨fun i => ?_, fun j => ?_, fun j => ?_, fun i => ?_, stake_nonneg,
    fun i _ => only i⟩, stand⟩
  · obtain ⟨j, own⟩ := only i
    exact ⟨j, (own j).mpr rfl⟩
  · ext key
    simp only [panelOf, List.mem_toFinset, mem_keys_iff_lossAt?, (stand j).alike.lossAt?]
  · funext key
    simp only [panelOf, (stand j).alike.lossAt?]
  · obtain ⟨j, own⟩ := only i
    have fibre : Finset.univ.filter (fun k => stands k = i) = {j} := by
      ext k
      simp [own]
    rw [fibre, Finset.sum_singleton, ← (own j).mpr rfl]
    exact (stand j).stake

end Shuffled

theorem whole_self (report : Report ℝ) (reputer : Address) :
    whole report report report reputer = reputer := by
  unfold whole
  split
  next same => exact (or_self_iff.mp same).symm
  next => rfl

variable {config : Config ℝ} {reports reports' : List (Report ℝ)} {before after : Consensus ℝ}

theorem Shuffled.exists_tied (shuffled : Shuffled reports reports')
    (once : (reports.map Report.reputer).Nodup)
    (stakes : Consensus.checkStakes (Consensus.taking reports) = .ok ()) (report : Report ℝ) :
    ∃ stands : Fin (Consensus.taking reports').length → Fin (Consensus.taking reports).length,
      Tied stands report report report := by
  obtain ⟨stands, merges, stand⟩ := shuffled.taking.exists_merges
    (once.sublist (List.filter_sublist.map _))
    fun i => (checkStakes_eq_ok_iff.mp stakes).1 _ (List.get_mem _ i)
  refine ⟨stands, merges, fun j => ?_, fun j => (stand j).alike⟩
  rw [whole_self]
  exact (stand j).reputer.symm

theorem participants_of_aggregate (once : (reports.map Report.reputer).Nodup)
    (returned : aggregate config reports = .ok before) :
    before.participants = (taking reports).map Report.reputer := by
  unfold participants Table.keys
  rw [(aggregate_computes_panel once returned).scores, map_fst_byReputer]

theorem Shuffled.eq_nil_iff (shuffled : Shuffled reports reports') : reports' = [] ↔ reports = [] := by
  have same := (shuffled.map_perm fun _ _ => Report.Relisted.reputer).length_eq
  rw [List.length_map, List.length_map] at same
  rw [← List.length_eq_zero_iff, ← List.length_eq_zero_iff, same]

theorem Shuffled.numbers (shuffled : Shuffled reports reports')
    (once : (reports.map Report.reputer).Nodup)
    (returned : aggregate config reports = .ok before)
    (returned' : aggregate config reports' = .ok after) :
    after.passes = before.passes ∧ after.levels = before.levels ∧
      ∀ reputer, after.standing reputer = before.standing reputer := by
  have reputers := shuffled.taking.map_perm fun _ _ => Report.Relisted.reputer
  by_cases nobody : Consensus.taking reports = []
  · rw [aggregate_of_nobody nobody] at returned
    rw [aggregate_of_nobody (shuffled.taking.eq_nil_iff.mpr nobody)] at returned'
    cases returned
    cases returned'
    exact ⟨rfl, rfl, fun _ => rfl⟩
  · obtain ⟨report, inside⟩ := List.exists_mem_of_ne_nil _ nobody
    obtain ⟨report', inside', -⟩ := shuffled.taking.exists_after inside
    obtain ⟨_, _, _, concluded⟩ := concluded_of_aggregate nobody returned
    obtain ⟨stands, tied⟩ := shuffled.exists_tied once concluded.stakes report'
    have once' := shuffled.distinct once
    have old := aggregate_computes_panel once returned
    have new := aggregate_computes_panel once' returned'
    refine ⟨tied.passes inside' old new, tied.levels old new, fun reputer => ?_⟩
    by_cases takes : reputer ∈ (Consensus.taking reports').map Report.reputer
    · obtain ⟨part, listed, rfl⟩ := List.mem_map.mp takes
      obtain ⟨_, _, named, same⟩ := tied.standing once once' returned returned' listed
      rw [same, named, whole_self]
    · have absent : reputer ∉ (Consensus.taking reports).map Report.reputer := by
        rwa [reputers.mem_iff]
      rw [standing_of_absent once returned absent, standing_of_absent once' returned' takes]

/-- Reports that fail fail alike in any order, and others come to the same consensus. -/
theorem shuffling_changes_nothing (once : (reports.map Report.reputer).Nodup)
    (shuffled : Shuffled reports reports') :
    (∀ fault, aggregate config reports = .error fault ↔ aggregate config reports' = .error fault) ∧
      ∀ before, aggregate config reports = .ok before →
        ∃ after, aggregate config reports' = .ok after ∧ SameUpToOrder reports' before after := by
  have failing : ∀ fault, aggregate config reports = .error fault ↔
      aggregate config reports' = .error fault := by
    intro fault
    rw [aggregate_eq_error_iff, aggregate_eq_error_iff, ne_eq, ne_eq, shuffled.taking.eq_nil_iff,
      shuffled.taking.checkStakes]
  refine ⟨failing, fun before returned => ?_⟩
  cases returned' : aggregate config reports' with
  | error fault => cases ((failing fault).mpr returned').symm.trans returned
  | ok after =>
    obtain ⟨passes, levels, standing⟩ := shuffled.numbers once returned returned'
    have participants := participants_of_aggregate once returned
    have participants' := participants_of_aggregate (shuffled.distinct once) returned'
    have excluded : before.excluded = left reports :=
      (aggregate_computes_panel once returned).excluded
    have excluded' : after.excluded = left reports' :=
      (aggregate_computes_panel (shuffled.distinct once) returned').excluded
    have leaving : ∀ report report' : Report ℝ, report.Relisted report' →
        (!report'.takesPart) = !report.takesPart :=
      fun report report' relisted => congrArg (! ·) relisted.takesPart
    refine ⟨after, rfl, passes, levels, standing, ?_, ?_, ?_, ?_⟩
    · rw [participants, participants']
      exact shuffled.taking.map_perm fun _ _ => Report.Relisted.reputer
    · rw [excluded, excluded']
      exact (shuffled.filter leaving).map_perm fun _ _ => Report.Relisted.reputer
    · rw [participants, participants']
      exact shuffled.map_filter once fun _ _ => Report.Relisted.takesPart
    · rw [excluded, excluded']
      exact shuffled.map_filter once leaving

noncomputable def Report.ofBoth (payload : UInt8) (losses : List (LossKey × ℝ)) : Report ℝ :=
  { Report.lone payload 1 1 1 with
    coverage := {
      reputer := ⟨Address.usualHrp, [payload]⟩
      eligible := .ofList [.whole .combined, .whole .naive]
      excluded := .empty
      losses := .ofList losses } }

/-- Two reputers, in either order and with the losses of the second in either order. -/
theorem shuffling_two_changes_nothing :
    let losses : List (LossKey × ℝ) := [(.whole .combined, 1), (.whole .naive, 10)]
    let reports := [Report.lone 1 3 10 (1 / 2), .ofBoth 2 losses]
    let reports' := [Report.ofBoth 2 losses.reverse, .lone 1 3 10 (1 / 2)]
    (reports.map Report.reputer).Nodup ∧ Shuffled reports reports' ∧
      ∃ before after, aggregate (.onePass 1 zero_le_one le_rfl) reports = .ok before ∧
        aggregate (.onePass 1 zero_le_one le_rfl) reports' = .ok after ∧
        SameUpToOrder reports' before after := by
  intro losses reports reports'
  have once : (reports.map Report.reputer).Nodup := by
    change ([⟨Address.usualHrp, [1]⟩, ⟨Address.usualHrp, [2]⟩] : List Address).Nodup
    decide
  have keys : ([.whole .combined, .whole .naive] : List LossKey).Nodup := by decide
  have entries : (Table.ofList losses).entries = losses := Table.entries_ofList keys
  have reversed : (Table.ofList losses.reverse).entries = losses.reverse :=
    Table.entries_ofList (by decide)
  have relisted : (Report.ofBoth 2 losses).Relisted (.ofBoth 2 losses.reverse) := {
    reputer := rfl
    eligible := rfl
    excluded := rfl
    losses := by
      change (Table.ofList losses).entries.Perm (Table.ofList losses.reverse).entries
      rw [entries, reversed]
      exact (List.reverse_perm losses).symm
    stake := rfl
    coefficient := rfl }
  have shuffled : Shuffled reports reports' := by
    refine ⟨[Report.ofBoth 2 losses, .lone 1 3 10 (1 / 2)], .swap _ _ _, .cons relisted (.cons ?_ .nil)⟩
    exact ⟨rfl, rfl, rfl, .refl _, rfl, rfl⟩
  have both : (Report.ofBoth 2 losses).takesPart := by
    rw [takesPart_iff]
    refine ⟨rfl, fun entry inside => ?_⟩
    change entry ∈ (Table.ofList losses).entries at inside
    rw [entries] at inside
    rcases List.mem_cons.mp inside with rfl | inside
    · exact one_pos
    · cases List.mem_singleton.mp inside
      norm_num
  have all : taking reports = reports := by
    unfold taking
    rw [List.filter_cons_of_pos (takesPart_lone _ _ _ (by norm_num)), List.filter_cons_of_pos both,
      List.filter_nil]
  have stakes : checkStakes (taking reports) = .ok () := by
    rw [all, checkStakes_eq_ok_iff]
    norm_num [reports, Report.lone, Report.ofBoth]
  have returned := aggregate_of_stakes (.onePass 1 zero_le_one le_rfl)
    (by rw [all]; exact List.cons_ne_nil _ _) stakes
  obtain ⟨after, returned', same⟩ := (shuffling_changes_nothing once shuffled).2 _ returned
  exact ⟨once, shuffled, _, after, returned, returned', same⟩

end Consensus
end RoundScoring
