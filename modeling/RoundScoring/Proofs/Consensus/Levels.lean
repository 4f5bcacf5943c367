import RoundScoring.Consensus.Pass
import RoundScoring.Proofs.Consensus.Range
import RoundScoring.Proofs.Tables
import RoundScoring.Proofs.Traversal

/-!
The levels and deviations of reports are those of their panel. Reports are lists and look up their
losses; a panel sums over finite sets. What ties the two together is that a loss is found exactly
under a key that was reported, and that weights are no less than zero, so that a sum of weights which
is not above zero is zero.
-/

namespace RoundScoring.Consensus

open Scalar

section Lists

theorem sum_map_filterMap {α β : Type} (l : List α) (g : α → Option β) (f : β → ℝ) :
    ((l.filterMap g).map f).sum = (l.map fun a => ((g a).map f).getD 0).sum := by
  induction l with
  | nil => rfl
  | cons a l ih =>
    rw [List.filterMap_cons, List.map_cons, List.sum_cons, ← ih]
    cases g a with
    | none => simp
    | some b => simp

theorem length_eq_sum_one {α : Type} (l : List α) : (l.length : ℝ) = (l.map fun _ => (1 : ℝ)).sum := by
  simp

end Lists

section Reports

variable {R : Type}

def Report.withCoefficient (report : Report R) (c : R) : Report R := { report with coefficient := c }

theorem mem_keys_iff_lossAt? {report : Report R} {key : LossKey} :
    key ∈ report.coverage.losses.keys ↔ ∃ loss, report.lossAt? key = some loss := by
  have absent := Table.get?_eq_none_iff (t := report.coverage.losses) (k := key)
  unfold Report.lossAt?
  cases found : report.coverage.losses.get? key with
  | none => simpa using absent.mp found
  | some loss => simpa [found] using absent

theorem mem_entries_of_lossAt? {report : Report R} {key : LossKey} {loss : R}
    (found : report.lossAt? key = some loss) : (key, loss) ∈ report.coverage.losses.entries :=
  Table.mem_entries_of_get? found

/-- The weights of some reports: one rule for all of them, chosen by their sums. -/
def weighing [Scalar R] (reports : List (Report R)) (report : Report R) : R :=
  if (reports.map fun report => report.stake * report.coefficient).sum ≤ 0 then
    if (reports.map Report.stake).sum ≤ 0 then 1 else report.stake
  else report.stake * report.coefficient

theorem weights_eq_map [Scalar R] (reports : List (Report R)) :
    weights reports = reports.map (weighing reports) := by
  unfold weights weighing
  dsimp only
  split
  next => split <;> rfl
  next => rfl

end Reports

theorem weightedLogLoss_map {α : Type} {l : List α} {w x : α → ℝ} (nonneg : ∀ a ∈ l, 0 ≤ w a)
    (positive : 0 < (l.map w).sum) (proper : ∀ a ∈ l, 0 < x a) :
    Loss.weightedLogLoss (l.map w) (l.map x) =
      .ok (l.map fun a => w a / (l.map w).sum * log10 (x a)).sum := by
  have filled : l.map w ≠ [] := by
    intro empty
    rw [empty] at positive
    exact lt_irrefl _ positive
  have noneNegative : ¬∃ v ∈ l.map w, v < 0 := by
    rintro ⟨v, inside, negative⟩
    obtain ⟨a, member, rfl⟩ := List.mem_map.mp inside
    exact absurd (nonneg a member) (not_le.mpr negative)
  have allProper : ¬∃ y ∈ l.map x, ¬IsLoss y := by
    rintro ⟨y, inside, improper⟩
    obtain ⟨a, member, rfl⟩ := List.mem_map.mp inside
    exact improper ((isLoss_iff_pos _).mpr (proper a member))
  unfold Loss.weightedLogLoss
  rw [if_neg (by simp), if_neg filled, if_neg noneNegative, if_neg (not_le.mpr positive),
    if_neg allProper, List.zipWith_map, List.zipWith_self]

noncomputable section

variable {n : ℕ}

/-- The panel of some reports. Their coefficients have no part in it. -/
def panelOf (report : Fin n → Report ℝ) : Panel (Fin n) where
  stake i := (report i).stake
  keys i := (report i).coverage.losses.keys.toFinset
  loss i key := ((report i).lossAt? key).getD 1

def reportsAt (report : Fin n → Report ℝ) (c : Fin n → ℝ) : List (Report ℝ) :=
  List.ofFn fun i => (report i).withCoefficient (c i)

theorem map_reportsAt {α : Type} (report : Fin n → Report ℝ) (c : Fin n → ℝ) (f : Report ℝ → α) :
    (reportsAt report c).map f = List.ofFn fun i => f ((report i).withCoefficient (c i)) := by
  unfold reportsAt
  rw [List.map_ofFn]
  rfl

/-- Reports as they take part: their stakes and losses are proper, and `keys` are all their keys. -/
structure Sound (report : Fin n → Report ℝ) (keys : OrderedSet LossKey) : Prop where
  stake_nonneg : ∀ i, 0 ≤ (report i).stake
  loss_pos : ∀ i, ∀ entry ∈ (report i).coverage.losses.entries, 0 < entry.2
  mem_keys : ∀ key, key ∈ keys ↔ ∃ i, key ∈ (report i).coverage.losses.keys

end

namespace Panel

variable {ι : Type} [Fintype ι] (panel : Panel ι)

theorem mem_reporters {key : LossKey} {i : ι} : i ∈ panel.reporters key ↔ key ∈ panel.keys i := by
  simp [reporters]

theorem weight_nonneg {c : ι → ℝ} (stake_nonneg : ∀ i, 0 ≤ panel.stake i) (nonneg : ∀ i, 0 ≤ c i)
    (key : LossKey) (i : ι) : 0 ≤ panel.weight c key i := by
  unfold weight
  split
  next => exact mul_nonneg (stake_nonneg i) (nonneg i)
  next =>
    split
    next => exact stake_nonneg i
    next => exact zero_le_one

theorem sum_weight_pos {c : ι → ℝ} (stake_nonneg : ∀ i, 0 ≤ panel.stake i) (nonneg : ∀ i, 0 ≤ c i)
    {key : LossKey} (reported : (panel.reporters key).Nonempty) :
    0 < ∑ i ∈ panel.reporters key, panel.weight c key i := by
  unfold weight
  split
  next heard =>
    have listened : 0 ≤ ∑ i ∈ panel.reporters key, panel.stake i * c i :=
      Finset.sum_nonneg fun i _ => mul_nonneg (stake_nonneg i) (nonneg i)
    exact lt_of_le_of_ne listened (Ne.symm heard)
  next =>
    split
    next staked =>
      have stakes : 0 ≤ ∑ i ∈ panel.reporters key, panel.stake i :=
        Finset.sum_nonneg fun i _ => stake_nonneg i
      exact lt_of_le_of_ne stakes (Ne.symm staked)
    next => exact Finset.sum_pos (fun _ _ => zero_lt_one) reported

end Panel

section Levels

variable {n : ℕ} {report : Fin n → Report ℝ} {keys : OrderedSet LossKey} {c : Fin n → ℝ}

theorem sum_reporters (report : Fin n → Report ℝ) (c : Fin n → ℝ) (key : LossKey)
    (f : Report ℝ × ℝ → ℝ) :
    ((reporters (reportsAt report c) key).map f).sum =
      ∑ i ∈ (panelOf report).reporters key,
        f ((report i).withCoefficient (c i), (panelOf report).loss i key) := by
  unfold reporters reportsAt
  rw [sum_map_filterMap, List.map_ofFn, List.sum_ofFn]
  unfold Panel.reporters
  rw [Finset.sum_filter]
  refine Finset.sum_congr rfl fun i _ => ?_
  have found : key ∈ (report i).coverage.losses.keys ↔ ∃ loss, (report i).lossAt? key = some loss :=
    mem_keys_iff_lossAt?
  change ((((report i).lossAt? key).map _).map f).getD 0 = _
  cases lookup : (report i).lossAt? key with
  | none =>
    have absent : key ∉ (panelOf report).keys i := by
      rw [panelOf, List.mem_toFinset, found, lookup]
      simp
    rw [if_neg absent]
    rfl
  | some loss =>
    have present : key ∈ (panelOf report).keys i := by
      rw [panelOf, List.mem_toFinset, found, lookup]
      exact ⟨loss, rfl⟩
    rw [if_pos present]
    simp [panelOf, lookup]

theorem weighing_reporters (sound : Sound report keys) (nonneg : ∀ i, 0 ≤ c i) (key : LossKey)
    (i : Fin n) :
    weighing ((reporters (reportsAt report c) key).map Prod.fst)
        ((report i).withCoefficient (c i)) = (panelOf report).weight c key i := by
  have listened := sum_reporters report c key fun heard => heard.1.stake * heard.1.coefficient
  have staked := sum_reporters report c key fun heard => heard.1.stake
  have listened_nonneg : 0 ≤ ∑ i ∈ (panelOf report).reporters key, (report i).stake * c i :=
    Finset.sum_nonneg fun i _ => mul_nonneg (sound.stake_nonneg i) (nonneg i)
  have staked_nonneg : 0 ≤ ∑ i ∈ (panelOf report).reporters key, (report i).stake :=
    Finset.sum_nonneg fun i _ => sound.stake_nonneg i
  unfold weighing Panel.weight
  simp only [List.map_map, Function.comp_def]
  rw [listened, staked]
  change (if ∑ i ∈ (panelOf report).reporters key, (report i).stake * c i ≤ 0 then
    if ∑ i ∈ (panelOf report).reporters key, (report i).stake ≤ 0 then 1 else (report i).stake
    else (report i).stake * c i) = _
  simp only [listened_nonneg.ge_iff_eq', staked_nonneg.ge_iff_eq', ite_not]
  rfl

theorem reporters_nonempty (sound : Sound report keys) {key : LossKey} (member : key ∈ keys) :
    ((panelOf report).reporters key).Nonempty := by
  obtain ⟨i, reported⟩ := (sound.mem_keys key).mp member
  refine ⟨i, (Panel.mem_reporters _).mpr ?_⟩
  simpa [panelOf] using reported

theorem heard_proper (sound : Sound report keys) (nonneg : ∀ i, 0 ≤ c i) (key : LossKey) :
    ∀ heard ∈ reporters (reportsAt report c) key,
      0 ≤ weighing ((reporters (reportsAt report c) key).map Prod.fst) heard.1 ∧ 0 < heard.2 := by
  rintro heard inside
  obtain ⟨_, listed, found⟩ := List.mem_filterMap.mp inside
  obtain ⟨i, rfl⟩ := List.mem_ofFn.mp listed
  obtain ⟨loss, lookup, rfl⟩ := Option.map_eq_some_iff.mp found
  rw [weighing_reporters sound nonneg key i]
  exact ⟨Panel.weight_nonneg _ sound.stake_nonneg nonneg key i,
    sound.loss_pos i _ (mem_entries_of_lossAt? lookup)⟩

theorem sum_weighing (sound : Sound report keys) (nonneg : ∀ i, 0 ≤ c i) (key : LossKey) :
    ((reporters (reportsAt report c) key).map fun heard =>
      weighing ((reporters (reportsAt report c) key).map Prod.fst) heard.1).sum =
      ∑ i ∈ (panelOf report).reporters key, (panelOf report).weight c key i := by
  have total := sum_reporters report c key fun heard =>
    weighing ((reporters (reportsAt report c) key).map Prod.fst) heard.1
  simp only [weighing_reporters sound nonneg key] at total
  exact total

theorem sum_weighing_pos (sound : Sound report keys) (nonneg : ∀ i, 0 ≤ c i) {key : LossKey}
    (member : key ∈ keys) :
    0 < ((reporters (reportsAt report c) key).map fun heard =>
      weighing ((reporters (reportsAt report c) key).map Prod.fst) heard.1).sum := by
  rw [sum_weighing sound nonneg key]
  exact Panel.sum_weight_pos _ sound.stake_nonneg nonneg (reporters_nonempty sound member)

theorem levelAt_reportsAt (sound : Sound report keys) (nonneg : ∀ i, 0 ≤ c i) {key : LossKey}
    (member : key ∈ keys) :
    levelAt (reportsAt report c) key = .ok ((panelOf report).level c key) := by
  have proper := heard_proper sound nonneg key
  unfold levelAt
  dsimp only
  rw [weights_eq_map, List.map_map]
  refine (weightedLogLoss_map (fun heard inside => (proper heard inside).1)
    (sum_weighing_pos sound nonneg member) fun heard inside => (proper heard inside).2).trans ?_
  rw [sum_weighing sound nonneg key, sum_reporters report c key fun heard =>
    weighing ((reporters (reportsAt report c) key).map Prod.fst) heard.1 /
      (∑ i ∈ (panelOf report).reporters key, (panelOf report).weight c key i) *
      log10 heard.2]
  simp only [weighing_reporters sound nonneg key]
  unfold Panel.level
  rw [Finset.sum_div]
  simp only [div_mul_eq_mul_div]

theorem levelsOf_reportsAt (sound : Sound report keys) (nonneg : ∀ i, 0 ≤ c i) :
    levelsOf keys (reportsAt report c) =
      .ok (keys.toList.map fun key => (key, (panelOf report).level c key)) := by
  refine Fault.mapM_eq_ok_iff.mpr (List.forall₂_map_right_iff.mpr (List.forall₂_same.mpr ?_))
  intro key member
  rw [levelAt_reportsAt sound nonneg member]
  rfl

theorem sum_own_keys (sound : Sound report keys) (level : LossKey → ℝ) (i : Fin n) (f : ℝ → ℝ) :
    (((keys.toList.map fun key => (key, level key)).filterMap fun (key, level) =>
      ((report i).lossAt? key).map fun loss => log10 loss - level).map f).sum =
      ∑ key ∈ (panelOf report).keys i,
        f (log10 ((panelOf report).loss i key) - level key) := by
  rw [sum_map_filterMap, List.map_map, ← List.sum_toFinset _ keys.nodup_toList]
  symm
  refine (Finset.sum_congr rfl ?_).trans (Finset.sum_subset ?_ ?_)
  · intro key own
    have reported : key ∈ (report i).coverage.losses.keys := by simpa [panelOf] using own
    obtain ⟨loss, found⟩ := mem_keys_iff_lossAt?.mp reported
    simp [panelOf, found]
  · intro key own
    have reported : key ∈ (report i).coverage.losses.keys := by simpa [panelOf] using own
    exact List.mem_toFinset.mpr ((sound.mem_keys key).mpr ⟨i, reported⟩)
  · intro key _ foreign
    have absent : (report i).lossAt? key = none := by
      by_contra found
      obtain ⟨loss, found⟩ := Option.ne_none_iff_exists'.mp found
      exact foreign (by simpa [panelOf] using mem_keys_iff_lossAt?.mpr ⟨loss, found⟩)
    simp [absent]

theorem deviation_eq (sound : Sound report keys) (i : Fin n) :
    deviation (keys.toList.map fun key => (key, (panelOf report).level c key))
        ((report i).withCoefficient (c i)) = (panelOf report).deviation c i := by
  unfold deviation
  rw [rootMeanSquare_eq, length_eq_sum_one]
  change √((((keys.toList.map fun key => (key, (panelOf report).level c key)).filterMap
    fun (key, level) => ((report i).lossAt? key).map fun loss => log10 loss - level).map
      fun x => x ^ 2).sum / _) = _
  rw [sum_own_keys sound]
  change √(_ / (((keys.toList.map fun key => (key, (panelOf report).level c key)).filterMap
    fun (key, level) => ((report i).lossAt? key).map fun loss => log10 loss - level).map
      fun _ => (1 : ℝ)).sum) = _
  rw [sum_own_keys sound]
  simp [Panel.deviation]

end Levels
end RoundScoring.Consensus
