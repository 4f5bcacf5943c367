import RoundScoring.Proofs.Consensus.Definition
import RoundScoring.Proofs.Consensus.Merging

/-!
Splitting a stake gains nothing. A reputer that takes part under two accounts, with the same losses
and its stake divided between them, changes nothing for anyone else, and each of its accounts stands as
the one did (`splitting_gains_nothing`). The participants of the two rounds are those of a panel and of
the panel with the two accounts taken together.
-/

namespace RoundScoring.Consensus

open Scalar

structure Standing (R : Type) where
  score : Option R
  coefficient : Option R
  deviation : Option R

def standing {R : Type} (consensus : Consensus R) (reputer : Address) : Standing R where
  score := consensus.scores.get? reputer
  coefficient := consensus.coefficients.get? reputer
  deviation := consensus.deviations.get? reputer

/-- Reports of the same losses, and listened to alike. -/
structure Report.Alike (part report : Report ℝ) : Prop where
  lossAt? : ∀ key, part.lossAt? key = report.lossAt? key
  eligible : part.coverage.eligible = report.coverage.eligible
  coefficient : part.coefficient = report.coefficient

theorem Report.Alike.refl (report : Report ℝ) : report.Alike report := ⟨fun _ => rfl, rfl, rfl⟩

theorem losses_pos_iff {report : Report ℝ} :
    (∀ entry ∈ report.coverage.losses.entries, 0 < entry.2) ↔
      ∀ key loss, report.lossAt? key = some loss → 0 < loss := by
  constructor
  · exact fun proper key loss found => proper _ (mem_entries_of_lossAt? found)
  · exact fun proper entry inside => proper entry.1 entry.2 (Table.get?_of_mem_entries inside)

theorem Report.Alike.takesPart {part report : Report ℝ} (alike : part.Alike report)
    (takes : report.takesPart) : part.takesPart := by
  rw [takesPart_iff, losses_pos_iff] at takes ⊢
  refine ⟨?_, fun key loss found => takes.2 key loss (alike.lossAt? key ▸ found)⟩
  unfold Coverage.hasEligible
  rw [alike.eligible]
  exact takes.1

/-- A participant with something at stake, and two reports that share its stake. -/
structure Split (report first second : Report ℝ) : Prop where
  takesPart : report.takesPart
  stake_pos : 0 < report.stake
  first_alike : first.Alike report
  second_alike : second.Alike report
  first_nonneg : 0 ≤ first.stake
  second_nonneg : 0 ≤ second.stake
  stake : first.stake + second.stake = report.stake

/-- Two lists of reports that differ in a report which is split in the second, and in their order. -/
structure Divided (report first second : Report ℝ) (rest before after : List (Report ℝ)) :
    Prop where
  split : Split report first second
  before_perm : before.Perm (report :: rest)
  after_perm : after.Perm (first :: second :: rest)
  before_distinct : (before.map Report.reputer).Nodup
  after_distinct : (after.map Report.reputer).Nodup

/-- The reputer that an account stands for: the parts of the split report for the reputer of the
whole, all others for themselves. -/
def whole (report first second : Report ℝ) (reputer : Address) : Address :=
  if reputer = first.reputer ∨ reputer = second.reputer then report.reputer else reputer

theorem get_injective {reports : List (Report ℝ)} (distinct : (reports.map Report.reputer).Nodup)
    {i j : Fin reports.length} (same : (reports.get i).reputer = (reports.get j).reputer) :
    i = j := by
  have alike := List.inj_on_of_nodup_map distinct (List.get_mem _ i) (List.get_mem _ j) same
  exact (List.Nodup.get_inj_iff distinct.of_map).mp alike

namespace Divided

variable {report first second : Report ℝ} {rest before after : List (Report ℝ)}

theorem participants (divided : Divided report first second rest before after) :
    Divided report first second (taking rest) (taking before) (taking after) := by
  obtain ⟨split, before_perm, after_perm, before_distinct, after_distinct⟩ := divided
  refine ⟨split, ?_, ?_, before_distinct.sublist (List.filter_sublist.map _),
    after_distinct.sublist (List.filter_sublist.map _)⟩
  · have perm := before_perm.filter Report.takesPart
    rwa [List.filter_cons_of_pos split.takesPart] at perm
  · have perm := after_perm.filter Report.takesPart
    rwa [List.filter_cons_of_pos (split.first_alike.takesPart split.takesPart),
      List.filter_cons_of_pos (split.second_alike.takesPart split.takesPart)] at perm

theorem whole_of_mem_rest (divided : Divided report first second rest before after)
    {other : Report ℝ} (inside : other ∈ rest) :
    whole report first second other.reputer = other.reputer := by
  have distinct := (divided.after_perm.map Report.reputer).nodup_iff.mp divided.after_distinct
  simp only [List.map_cons, List.nodup_cons, List.mem_cons, List.mem_map, not_or, not_exists,
    not_and] at distinct
  unfold whole
  rw [if_neg]
  rintro (same | same)
  · exact distinct.1.2 other inside same
  · exact distinct.2.1 other inside same

theorem reputer_ne_of_mem_rest (divided : Divided report first second rest before after)
    {other : Report ℝ} (inside : other ∈ rest) : other.reputer ≠ report.reputer := by
  have distinct := (divided.before_perm.map Report.reputer).nodup_iff.mp divided.before_distinct
  simp only [List.map_cons, List.nodup_cons, List.mem_map, not_exists, not_and] at distinct
  exact distinct.1 other inside

theorem whole_first : whole report first second first.reputer = report.reputer := if_pos (.inl rfl)

theorem whole_second : whole report first second second.reputer = report.reputer :=
  if_pos (.inr rfl)

theorem exists_alike (divided : Divided report first second rest before after) {part : Report ℝ}
    (inside : part ∈ after) :
    ∃ other ∈ before, other.reputer = whole report first second part.reputer ∧
      part.Alike other := by
  have listed := divided.before_perm.mem_iff (a := report)
  rcases List.mem_cons.mp (divided.after_perm.mem_iff.mp inside) with rfl | inside
  · exact ⟨report, listed.mpr List.mem_cons_self, whole_first.symm, divided.split.first_alike⟩
  rcases List.mem_cons.mp inside with rfl | inside
  · exact ⟨report, listed.mpr List.mem_cons_self, whole_second.symm, divided.split.second_alike⟩
  · exact ⟨part, divided.before_perm.mem_iff.mpr (List.mem_cons_of_mem _ inside),
      (divided.whole_of_mem_rest inside).symm, .refl part⟩

theorem sum_stakes (divided : Divided report first second rest before after) (reputer : Address) :
    (after.map fun part =>
      if whole report first second part.reputer = reputer then part.stake else 0).sum =
      (before.map fun other => if other.reputer = reputer then other.stake else 0).sum := by
  have same : (rest.map fun part =>
      if whole report first second part.reputer = reputer then part.stake else 0) =
      rest.map fun other => if other.reputer = reputer then other.stake else 0 := by
    refine List.map_congr_left fun other inside => ?_
    rw [divided.whole_of_mem_rest inside]
  rw [(divided.after_perm.map _).sum_eq, (divided.before_perm.map _).sum_eq]
  simp only [List.map_cons, List.sum_cons, whole_first, whole_second, same]
  rw [← add_assoc, ← divided.split.stake]
  split
  next => rfl
  next => rw [add_zero]

theorem checkStakes (divided : Divided report first second rest before after)
    (stakes : checkStakes before = .ok ()) : Consensus.checkStakes after = .ok () := by
  obtain ⟨nonneg, positive⟩ := checkStakes_eq_ok_iff.mp stakes
  rw [(divided.before_perm.map _).sum_eq, List.map_cons, List.sum_cons] at positive
  refine checkStakes_eq_ok_iff.mpr ⟨fun part inside => ?_, ?_⟩
  · rcases List.mem_cons.mp (divided.after_perm.mem_iff.mp inside) with rfl | inside
    · exact divided.split.first_nonneg
    rcases List.mem_cons.mp inside with rfl | inside
    · exact divided.split.second_nonneg
    · exact nonneg part (divided.before_perm.mem_iff.mpr (List.mem_cons_of_mem _ inside))
  · rw [(divided.after_perm.map _).sum_eq, List.map_cons, List.sum_cons, List.map_cons,
      List.sum_cons, ← add_assoc, divided.split.stake]
    exact positive

theorem exists_stands (divided : Divided report first second rest before after) :
    ∃ stands : Fin after.length → Fin before.length, ∀ j,
      (before.get (stands j)).reputer = whole report first second (after.get j).reputer ∧
        (after.get j).Alike (before.get (stands j)) := by
  have found : ∀ j : Fin after.length, ∃ i : Fin before.length,
      (before.get i).reputer = whole report first second (after.get j).reputer ∧
        (after.get j).Alike (before.get i) := by
    intro j
    obtain ⟨other, inside, found⟩ := divided.exists_alike (List.get_mem after j)
    obtain ⟨i, rfl⟩ := List.get_of_mem inside
    exact ⟨i, found⟩
  choose stands found using found
  exact ⟨stands, found⟩

theorem sum_stake_stands (divided : Divided report first second rest before after)
    {stands : Fin after.length → Fin before.length}
    (stand : ∀ j, (before.get (stands j)).reputer =
      whole report first second (after.get j).reputer) (i : Fin before.length) :
    ∑ j with stands j = i, (after.get j).stake = (before.get i).stake := by
  have stands_iff : ∀ j, stands j = i ↔
      whole report first second (after.get j).reputer = (before.get i).reputer := by
    intro j
    rw [← stand j]
    exact ⟨fun same => same ▸ rfl, get_injective divided.before_distinct⟩
  have own : ∀ i', (before.get i').reputer = (before.get i).reputer ↔ i' = i :=
    fun i' => ⟨get_injective divided.before_distinct, fun same => same ▸ rfl⟩
  have sums := divided.sum_stakes (before.get i).reputer
  rw [← List.ofFn_getElem_eq_map, ← List.ofFn_getElem_eq_map, List.sum_ofFn, List.sum_ofFn] at sums
  rw [Finset.sum_filter]
  simp only [stands_iff]
  refine sums.trans ?_
  change ∑ i', (if (before.get i').reputer = (before.get i).reputer then _ else _) = _
  simp only [own]
  rw [Finset.sum_ite_eq' Finset.univ i, if_pos (Finset.mem_univ i)]
  rfl

theorem alone_of_stake_eq_zero (divided : Divided report first second rest before after)
    {stands : Fin after.length → Fin before.length}
    (stand : ∀ j, (before.get (stands j)).reputer =
      whole report first second (after.get j).reputer) {i : Fin before.length}
    (nothing : (before.get i).stake = 0) : ∃ j, ∀ k, stands k = i ↔ k = j := by
  have other : before.get i ∈ rest := by
    refine List.mem_of_ne_of_mem ?_ (divided.before_perm.mem_iff.mp (List.get_mem before i))
    intro same
    rw [same] at nothing
    exact divided.split.stake_pos.ne' nothing
  have listed : before.get i ∈ after :=
    divided.after_perm.mem_iff.mpr (List.mem_cons_of_mem _ (List.mem_cons_of_mem _ other))
  obtain ⟨j, own⟩ := List.get_of_mem listed
  have itself : whole report first second (after.get j).reputer = (before.get i).reputer := by
    rw [own]
    exact divided.whole_of_mem_rest other
  refine ⟨j, fun k => ⟨?_, ?_⟩⟩
  · rintro rfl
    have named := stand k
    unfold whole at named
    split at named
    next => exact absurd named (divided.reputer_ne_of_mem_rest other)
    next =>
      apply get_injective divided.after_distinct
      rw [← named, own]
  · rintro rfl
    exact get_injective divided.before_distinct ((stand k).trans itself)

theorem exists_merges (divided : Divided report first second rest before after)
    (stake_nonneg : ∀ i, 0 ≤ (before.get i).stake) :
    ∃ stands, Panel.Merges stands (panelOf after.get) (panelOf before.get) ∧
      ∀ j, (before.get (stands j)).reputer = whole report first second (after.get j).reputer ∧
        (after.get j).Alike (before.get (stands j)) := by
  obtain ⟨stands, found⟩ := divided.exists_stands
  refine ⟨stands, ⟨fun i => ?_, fun j => ?_, fun j => ?_, fun i => ?_, stake_nonneg,
    fun i => divided.alone_of_stake_eq_zero fun j => (found j).1⟩, found⟩
  · -- Something is at stake, or the participant is stood for by itself alone.
    by_contra nobody
    rw [not_exists] at nobody
    have sums := divided.sum_stake_stands (fun j => (found j).1) i
    rw [Finset.filter_false_of_mem fun j _ => nobody j, Finset.sum_empty] at sums
    obtain ⟨j, only⟩ := divided.alone_of_stake_eq_zero (fun j => (found j).1) sums.symm
    exact nobody j ((only j).mpr rfl)
  · ext key
    simp only [panelOf, List.mem_toFinset, mem_keys_iff_lossAt?, (found j).2.lossAt?]
  · funext key
    simp only [panelOf, (found j).2.lossAt?]
  · exact divided.sum_stake_stands (fun j => (found j).1) i

end Divided

variable {config : Config ℝ} {reports reports' : List (Report ℝ)} {consensus : Consensus ℝ}

theorem lookup_byReputer (distinct : ((taking reports).map Report.reputer).Nodup)
    (value : Fin (taking reports).length → ℝ) (i : Fin (taking reports).length) :
    (byReputer reports value).lookup ((taking reports).get i).reputer = some (value i) := by
  have entries := entries_ofList_byReputer distinct value
  rw [← entries]
  apply Table.get?_of_mem_entries
  rw [entries]
  exact List.mem_ofFn.mpr ⟨i, rfl⟩

theorem lookup_byReputer_of_absent {reputer : Address}
    (absent : reputer ∉ (taking reports).map Report.reputer)
    (value : Fin (taking reports).length → ℝ) :
    (byReputer reports value).lookup reputer = none := by
  rw [← map_fst_byReputer reports value] at absent
  refine List.lookup_eq_none_iff.mpr fun entry inside => ?_
  have other : entry.1 ≠ reputer := fun same => absent (same ▸ List.mem_map_of_mem inside)
  simpa using other.symm

noncomputable abbrev finals (config : Config ℝ) (reports : List (Report ℝ)) :
    Fin (taking reports).length → ℝ :=
  (roundPanel reports).coefficients config (priors reports)

theorem standing_of_aggregate (distinct : (reports.map Report.reputer).Nodup)
    (returned : aggregate config reports = .ok consensus) (i : Fin (taking reports).length) :
    consensus.standing ((taking reports).get i).reputer = {
      score := some (-(roundPanel reports).deviation (finals config reports) i)
      coefficient := some (finals config reports i)
      deviation := some ((roundPanel reports).deviation (finals config reports) i) } := by
  have computed := aggregate_computes_panel distinct returned
  have once : ((taking reports).map Report.reputer).Nodup :=
    distinct.sublist (List.filter_sublist.map _)
  unfold standing Table.get?
  rw [computed.scores, computed.coefficients, computed.deviations]
  simp only [lookup_byReputer once]

theorem standing_of_absent (distinct : (reports.map Report.reputer).Nodup)
    (returned : aggregate config reports = .ok consensus) {reputer : Address}
    (absent : reputer ∉ (taking reports).map Report.reputer) :
    consensus.standing reputer = ⟨none, none, none⟩ := by
  have computed := aggregate_computes_panel distinct returned
  unfold standing Table.get?
  rw [computed.scores, computed.coefficients, computed.deviations]
  simp only [lookup_byReputer_of_absent absent]

structure SameButSplit (report first second : Report ℝ) (before after : Consensus ℝ) : Prop where
  passes : after.passes = before.passes
  levels : after.levels = before.levels
  others : ∀ reputer, reputer ∉ [report.reputer, first.reputer, second.reputer] →
    after.standing reputer = before.standing reputer
  parts : ∃ score coefficient deviation,
    before.standing report.reputer = ⟨some score, some coefficient, some deviation⟩ ∧
    after.standing first.reputer = ⟨some score, some coefficient, some deviation⟩ ∧
    after.standing second.reputer = ⟨some score, some coefficient, some deviation⟩

structure Tied (stands : Fin (taking reports').length → Fin (taking reports).length)
    (report first second : Report ℝ) : Prop where
  merges : Panel.Merges stands (roundPanel reports') (roundPanel reports)
  reputer : ∀ j, ((taking reports).get (stands j)).reputer =
    whole report first second ((taking reports').get j).reputer
  alike : ∀ j, ((taking reports').get j).Alike ((taking reports).get (stands j))

namespace Tied

variable {stands : Fin (taking reports').length → Fin (taking reports).length}
  {report first second : Report ℝ}

theorem priors (tied : Tied stands report first second) :
    Consensus.priors reports' = Consensus.priors reports ∘ stands :=
  funext fun j => (tied.alike j).coefficient

theorem finals (tied : Tied stands report first second) :
    Consensus.finals config reports' = Consensus.finals config reports ∘ stands := by
  unfold Consensus.finals
  rw [tied.priors]
  exact tied.merges.coefficients

theorem reported_iff (tied : Tied stands report first second) (key : LossKey) :
    (∃ part ∈ taking reports', key ∈ part.coverage.losses.keys) ↔
      ∃ other ∈ taking reports, key ∈ other.coverage.losses.keys := by
  simp only [mem_keys_iff_lossAt?]
  constructor
  · rintro ⟨part, inside, loss, found⟩
    obtain ⟨j, rfl⟩ := List.get_of_mem inside
    exact ⟨_, List.get_mem _ (stands j), loss, (tied.alike j).lossAt? key ▸ found⟩
  · rintro ⟨other, inside, loss, found⟩
    obtain ⟨i, rfl⟩ := List.get_of_mem inside
    obtain ⟨j, rfl⟩ := tied.merges.onto i
    exact ⟨_, List.get_mem _ j, loss, ((tied.alike j).lossAt? key).trans found⟩

variable {before after : Consensus ℝ}

theorem passes (tied : Tied stands report first second) (listed : first ∈ taking reports')
    (old : AsPanelDefines config reports before) (new : AsPanelDefines config reports' after) :
    after.passes = before.passes := by
  obtain ⟨j, -⟩ := List.get_of_mem listed
  rw [new.passes, old.passes, if_neg (List.ne_nil_of_mem listed),
    if_neg (List.ne_nil_of_mem (List.get_mem _ (stands j))), tied.priors]
  exact tied.merges.passes

theorem levels (tied : Tied stands report first second)
    (old : AsPanelDefines config reports before) (new : AsPanelDefines config reports' after) :
    after.levels = before.levels := by
  obtain ⟨keys, mem_keys, entries⟩ := old.levels
  obtain ⟨keys', mem_keys', entries'⟩ := new.levels
  have same : keys' = keys :=
    OrderedSet.ext fun key => ((mem_keys' key).trans (tied.reported_iff key)).trans (mem_keys key).symm
  apply Table.ext
  rw [entries, entries', same]
  refine List.map_congr_left fun key _ => ?_
  change (key, (roundPanel reports').level (Consensus.finals config reports') key) = _
  rw [tied.finals, tied.merges.level]

theorem standing (tied : Tied stands report first second)
    (distinct : (reports.map Report.reputer).Nodup) (distinct' : (reports'.map Report.reputer).Nodup)
    (returned : aggregate config reports = .ok before)
    (returned' : aggregate config reports' = .ok after) {part : Report ℝ}
    (inside : part ∈ taking reports') :
    ∃ other ∈ taking reports, other.reputer = whole report first second part.reputer ∧
      after.standing part.reputer = before.standing other.reputer := by
  obtain ⟨j, rfl⟩ := List.get_of_mem inside
  refine ⟨_, List.get_mem _ (stands j), tied.reputer j, ?_⟩
  rw [standing_of_aggregate distinct' returned' j,
    standing_of_aggregate distinct returned (stands j), tied.finals]
  simp only [tied.merges.deviation, Function.comp_apply]

end Tied

theorem exists_tied {report first second : Report ℝ} {rest : List (Report ℝ)}
    (divided : Divided report first second rest (taking reports) (taking reports'))
    (stakes : checkStakes (taking reports) = .ok ()) :
    ∃ stands : Fin (taking reports').length → Fin (taking reports).length,
      Tied stands report first second := by
  obtain ⟨stands, merges, found⟩ :=
    divided.exists_merges fun i => (checkStakes_eq_ok_iff.mp stakes).1 _ (List.get_mem _ i)
  exact ⟨stands, merges, fun j => (found j).1, fun j => (found j).2⟩

/-- Whoever is split: the consensus comes about all the same, and only the split reputer's entries are
replaced, by equal ones for both of its accounts. -/
theorem splitting_gains_nothing {report first second : Report ℝ} {rest : List (Report ℝ)}
    (divided : Divided report first second rest reports reports')
    (returned : aggregate config reports = .ok consensus) :
    ∃ after, aggregate config reports' = .ok after ∧
      SameButSplit report first second consensus after := by
  have taken := divided.participants
  have listed : report ∈ taking reports := taken.before_perm.mem_iff.mpr List.mem_cons_self
  have listed' : first ∈ taking reports' := taken.after_perm.mem_iff.mpr List.mem_cons_self
  have listed'' : second ∈ taking reports' :=
    taken.after_perm.mem_iff.mpr (List.mem_cons_of_mem _ List.mem_cons_self)
  obtain ⟨_, _, _, concluded⟩ := concluded_of_aggregate (List.ne_nil_of_mem listed) returned
  have returned' := aggregate_of_stakes config (List.ne_nil_of_mem listed')
    (taken.checkStakes concluded.stakes)
  obtain ⟨stands, tied⟩ := exists_tied taken concluded.stakes
  have old := aggregate_computes_panel divided.before_distinct returned
  have new := aggregate_computes_panel divided.after_distinct returned'
  have stand := fun (part : Report ℝ) (inside : part ∈ taking reports') =>
    tied.standing divided.before_distinct divided.after_distinct returned returned' inside
  refine ⟨_, returned', tied.passes listed' old new, tied.levels old new, fun reputer other => ?_, ?_⟩
  · simp only [List.mem_cons, List.not_mem_nil, or_false, not_or] at other
    by_cases takes : reputer ∈ (taking reports').map Report.reputer
    · obtain ⟨part, inside, rfl⟩ := List.mem_map.mp takes
      obtain ⟨_, _, named, same⟩ := stand part inside
      rw [same, named, whole, if_neg (by simp [other])]
    · have absent : reputer ∉ (taking reports).map Report.reputer := by
        rw [(taken.before_perm.map _).mem_iff, List.map_cons, List.mem_cons]
        rw [(taken.after_perm.map _).mem_iff] at takes
        simp only [List.map_cons, List.mem_cons, not_or] at takes ⊢
        exact ⟨other.1, takes.2.2⟩
      rw [standing_of_absent divided.before_distinct returned absent,
        standing_of_absent divided.after_distinct returned' takes]
  · obtain ⟨_, _, named, same⟩ := stand first listed'
    obtain ⟨_, _, named', same'⟩ := stand second listed''
    rw [same, same', named, named', Divided.whole_first, Divided.whole_second]
    obtain ⟨i, own⟩ := List.get_of_mem listed
    have known := standing_of_aggregate divided.before_distinct returned i
    rw [own] at known
    exact ⟨_, _, _, known, known, known⟩

/-- A reputer with a stake of three goes on as one with a stake of one and one with a stake of two. -/
theorem splitting_three_gains_nothing :
    Divided (.lone 1 3 10 1) (.lone 3 1 10 1) (.lone 4 2 10 1) [.lone 2 1 1 1]
      [.lone 1 3 10 1, .lone 2 1 1 1] [.lone 3 1 10 1, .lone 2 1 1 1, .lone 4 2 10 1] ∧
    ∃ before after,
      aggregate (.onePass 1 zero_le_one le_rfl) [.lone 1 3 10 1, .lone 2 1 1 1] = .ok before ∧
      aggregate (.onePass 1 zero_le_one le_rfl) [.lone 3 1 10 1, .lone 2 1 1 1, .lone 4 2 10 1] =
        .ok after ∧
      SameButSplit (.lone 1 3 10 1) (.lone 3 1 10 1) (.lone 4 2 10 1) before after := by
  have takes : ∀ payload stake, (Report.lone payload stake 10 1).takesPart :=
    fun payload stake => takesPart_lone payload stake 1 (by norm_num)
  have split : Split (.lone 1 3 10 1) (.lone 3 1 10 1) (.lone 4 2 10 1) :=
    ⟨takes 1 3, by norm_num [Report.lone], ⟨fun _ => rfl, rfl, rfl⟩, ⟨fun _ => rfl, rfl, rfl⟩,
      by norm_num [Report.lone], by norm_num [Report.lone], by norm_num [Report.lone]⟩
  have divided : Divided (.lone 1 3 10 1) (.lone 3 1 10 1) (.lone 4 2 10 1) [.lone 2 1 1 1]
      [.lone 1 3 10 1, .lone 2 1 1 1] [.lone 3 1 10 1, .lone 2 1 1 1, .lone 4 2 10 1] := by
    refine ⟨split, .refl _, .cons _ (.swap _ _ _), ?_, ?_⟩
    · change ([⟨Address.usualHrp, [1]⟩, ⟨Address.usualHrp, [2]⟩] : List Address).Nodup
      decide
    · change ([⟨Address.usualHrp, [3]⟩, ⟨Address.usualHrp, [2]⟩, ⟨Address.usualHrp, [4]⟩] :
        List Address).Nodup
      decide
  have all : taking [.lone 1 3 10 1, .lone 2 1 1 1] = [.lone 1 3 10 1, .lone 2 1 1 1] := by
    unfold taking
    rw [List.filter_cons_of_pos (takes 1 3),
      List.filter_cons_of_pos (takesPart_lone _ _ _ one_pos), List.filter_nil]
  have stakes : checkStakes (taking [.lone 1 3 10 1, .lone 2 1 1 1]) = .ok () := by
    rw [all, checkStakes_eq_ok_iff]
    norm_num [Report.lone]
  have returned := aggregate_of_stakes (.onePass 1 zero_le_one le_rfl)
    (by rw [all]; exact List.cons_ne_nil _ _) stakes
  obtain ⟨after, returned', same⟩ := splitting_gains_nothing divided returned
  exact ⟨divided, _, after, returned, returned', same⟩

end RoundScoring.Consensus
