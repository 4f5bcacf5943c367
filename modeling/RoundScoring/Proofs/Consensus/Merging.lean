import RoundScoring.Proofs.Consensus.Range

/-!
Participants that report alike can be taken together. Where one panel is another with some of its
participants taken together, the coefficients of the two stay the same in every pass, and with them
levels, deviations and the number of passes. All of it rests on the weights: those of the participants
that are taken together add up to the weight of the one that stands for them, whichever rule gives the
weights. The rule of equal weights counts heads, and so only participants that have something at stake
can stand for several.
-/

namespace RoundScoring.Consensus.Panel

variable {ι κ : Type} [DecidableEq ι] [Fintype κ]

/-- Every participant of a panel, the divided one, is stood for by one of another panel. -/
structure Merges (stands : κ → ι) (divided : Panel κ) (panel : Panel ι) : Prop where
  onto : Function.Surjective stands
  keys : ∀ j, divided.keys j = panel.keys (stands j)
  loss : ∀ j, divided.loss j = panel.loss (stands j)
  stake : ∀ i, ∑ j with stands j = i, divided.stake j = panel.stake i
  stake_nonneg : ∀ i, 0 ≤ panel.stake i
  alone : ∀ i, panel.stake i = 0 → ∃ j, ∀ k, stands k = i ↔ k = j

namespace Merges

variable {stands : κ → ι} {divided : Panel κ} {panel : Panel ι} {config : Config ℝ} {c prior : ι → ℝ}

theorem sum_stake_mul (merges : Merges stands divided panel) (i : ι) :
    ∑ j with stands j = i, divided.stake j * c (stands j) = panel.stake i * c i := by
  rw [← merges.stake i, Finset.sum_mul]
  refine Finset.sum_congr rfl fun j inside => ?_
  rw [(Finset.mem_filter.mp inside).2]

variable [Fintype ι]

theorem mem_reporters (merges : Merges stands divided panel) {key : LossKey} {j : κ} :
    j ∈ divided.reporters key ↔ stands j ∈ panel.reporters key := by
  simp only [reporters, Finset.mem_filter_univ, merges.keys]

theorem sum_reporters (merges : Merges stands divided panel) (key : LossKey) {g : κ → ℝ} {h : ι → ℝ}
    (together : ∀ i ∈ panel.reporters key, ∑ j with stands j = i, g j = h i) :
    ∑ j ∈ divided.reporters key, g j = ∑ i ∈ panel.reporters key, h i := by
  rw [← Finset.sum_fiberwise_of_maps_to (fun j inside => merges.mem_reporters.mp inside) g]
  refine Finset.sum_congr rfl fun i inside => (Finset.sum_congr ?_ fun _ _ => rfl).trans
    (together i inside)
  ext j
  simp only [Finset.mem_filter, Finset.mem_univ, true_and, and_iff_right_iff_imp]
  rintro rfl
  exact merges.mem_reporters.mpr inside

theorem sum_weight (merges : Merges stands divided panel) (key : LossKey) {i : ι}
    (reports : i ∈ panel.reporters key) :
    ∑ j with stands j = i, divided.weight (c ∘ stands) key j = panel.weight c key i := by
  have listened : ∑ j ∈ divided.reporters key, divided.stake j * (c ∘ stands) j =
      ∑ i ∈ panel.reporters key, panel.stake i * c i :=
    merges.sum_reporters key fun i _ => merges.sum_stake_mul i
  have staked : ∑ j ∈ divided.reporters key, divided.stake j =
      ∑ i ∈ panel.reporters key, panel.stake i :=
    merges.sum_reporters key fun i _ => merges.stake i
  unfold weight
  rw [listened, staked]
  by_cases heard : ∑ i ∈ panel.reporters key, panel.stake i * c i ≠ 0
  · simp only [if_pos heard]
    exact merges.sum_stake_mul i
  simp only [if_neg heard]
  by_cases backed : ∑ i ∈ panel.reporters key, panel.stake i ≠ 0
  · simp only [if_pos backed]
    exact merges.stake i
  · -- Nobody who reports the key has anything at stake, so each stands for itself.
    simp only [if_neg backed]
    have nothing : panel.stake i = 0 :=
      (Finset.sum_eq_zero_iff_of_nonneg fun i _ => merges.stake_nonneg i).mp
        (not_not.mp backed) i reports
    obtain ⟨j, only⟩ := merges.alone i nothing
    have fibre : Finset.univ.filter (fun k => stands k = i) = {j} := by
      ext k
      simp [only]
    rw [fibre, Finset.sum_singleton]

theorem level (merges : Merges stands divided panel) (key : LossKey) :
    divided.level (c ∘ stands) key = panel.level c key := by
  unfold Panel.level
  congr 1
  · refine merges.sum_reporters key fun i reports => ?_
    rw [← merges.sum_weight key reports, Finset.sum_mul]
    refine Finset.sum_congr rfl fun j inside => ?_
    rw [merges.loss j, (Finset.mem_filter.mp inside).2]
  · exact merges.sum_reporters key fun i reports => merges.sum_weight key reports

theorem deviation (merges : Merges stands divided panel) (j : κ) :
    divided.deviation (c ∘ stands) j = panel.deviation c (stands j) := by
  unfold Panel.deviation
  simp only [merges.level, merges.loss, merges.keys]

theorem agreement (merges : Merges stands divided panel) (j : κ) :
    divided.agreement config (c ∘ stands) j = panel.agreement config c (stands j) := by
  unfold Panel.agreement
  rw [merges.deviation]

theorem stepped (merges : Merges stands divided panel) (j : κ) :
    divided.stepped config (c ∘ stands) j = panel.stepped config c (stands j) := by
  have best : ⨆ j, divided.agreement config (c ∘ stands) j = ⨆ i, panel.agreement config c i := by
    simp only [merges.agreement]
    exact merges.onto.iSup_comp _
  unfold Panel.stepped
  rw [best, merges.agreement]
  rfl

theorem pass (merges : Merges stands divided panel) :
    divided.pass config (c ∘ stands) = panel.pass config c ∘ stands := by
  have top : ⨆ j, divided.stepped config (c ∘ stands) j = ⨆ i, panel.stepped config c i := by
    simp only [merges.stepped]
    exact merges.onto.iSup_comp _
  funext j
  unfold Panel.pass
  rw [top, merges.stepped]
  rfl

theorem coefficientsAfter (merges : Merges stands divided panel) (k : ℕ) :
    divided.coefficientsAfter config (prior ∘ stands) k =
      panel.coefficientsAfter config prior k ∘ stands := by
  induction k with
  | zero => rfl
  | succ k ih =>
    rw [coefficientsAfter_succ, coefficientsAfter_succ, ih, merges.pass]

theorem change (merges : Merges stands divided panel) (k : ℕ) :
    divided.change config (prior ∘ stands) k = panel.change config prior k := by
  unfold Panel.change
  simp only [merges.coefficientsAfter, Function.comp_apply]
  exact merges.onto.iSup_comp fun i => |panel.coefficientsAfter config prior (k + 1) i -
    panel.coefficientsAfter config prior k i|

theorem passes (merges : Merges stands divided panel) :
    divided.passes config (prior ∘ stands) = panel.passes config prior := by
  unfold Panel.passes
  simp only [merges.change]

theorem coefficients (merges : Merges stands divided panel) :
    divided.coefficients config (prior ∘ stands) = panel.coefficients config prior ∘ stands := by
  unfold Panel.coefficients
  rw [merges.passes, merges.coefficientsAfter]

end Merges
end RoundScoring.Consensus.Panel
