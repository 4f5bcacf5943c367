import RoundScoring.Proofs.Consensus.Keys
import RoundScoring.Proofs.Consensus.Passes

/-!
A consensus in exact arithmetic is the one that the panel of its participants defines. Participants
are the reports that are eligible and whose losses are all above zero, in order; whenever their
stakes pass, a consensus is returned (`aggregate_of_stakes`), and no other consensus ever is
(`aggregate_eq_ok`).
-/

namespace RoundScoring.Consensus

open Scalar

theorem takesPart_iff (report : Report ℝ) :
    report.takesPart ↔ report.coverage.hasEligible ∧
      ∀ entry ∈ report.coverage.losses.entries, 0 < entry.2 := by
  simp [Report.takesPart]

theorem checkStakes_eq_ok_iff {reports : List (Report ℝ)} :
    checkStakes reports = .ok () ↔
      (∀ report ∈ reports, 0 ≤ report.stake) ∧ 0 < (reports.map Report.stake).sum := by
  unfold checkStakes
  by_cases negative : ∃ report ∈ reports, report.stake < 0
  · rw [if_pos negative]
    obtain ⟨report, inside, below⟩ := negative
    constructor
    · intro wrong
      cases wrong
    · rintro ⟨nonneg, -⟩
      exact absurd (nonneg report inside) (not_le.mpr below)
  · rw [if_neg negative]
    have nonneg : ∀ report ∈ reports, 0 ≤ report.stake :=
      fun report inside => not_lt.mp fun below => negative ⟨report, inside, below⟩
    by_cases nothing : (reports.map Report.stake).sum ≤ 0
    · rw [if_pos nothing]
      constructor
      · intro wrong
        cases wrong
      · rintro ⟨-, positive⟩
        exact absurd positive (not_lt.mpr nothing)
    · rw [if_neg nothing]
      exact ⟨fun _ => ⟨nonneg, not_le.mp nothing⟩, fun _ => rfl⟩

theorem sound_of_checkStakes {reports : List (Report ℝ)}
    (stakes : checkStakes (taking reports) = .ok ()) :
    Sound (taking reports).get (lossKeys (taking reports)) where
  stake_nonneg i := (checkStakes_eq_ok_iff.mp stakes).1 _ (List.get_mem _ i)
  loss_pos i := ((takesPart_iff _).mp (List.mem_filter.mp (List.get_mem (taking reports) i)).2).2
  mem_keys key := by
    rw [mem_lossKeys]
    constructor
    · rintro ⟨report, inside, reported⟩
      obtain ⟨i, rfl⟩ := List.get_of_mem inside
      exact ⟨i, reported⟩
    · rintro ⟨i, reported⟩
      exact ⟨_, List.get_mem _ i, reported⟩

theorem map_clamped (config : Config ℝ) (reports : List (Report ℝ)) :
    reports.map (Report.clamped config) = reportsAt reports.get
      ((panelOf reports.get).coefficientsAfter config (fun i => (reports.get i).coefficient) 0) := by
  unfold reportsAt
  conv_lhs => rw [← List.ofFn_get reports, List.map_ofFn]
  congr 1
  funext i
  simp only [Function.comp_apply, Report.clamped, clamp_eq_within]
  rfl

noncomputable section

def roundPanel (reports : List (Report ℝ)) : Panel (Fin (taking reports).length) :=
  panelOf (taking reports).get

def priors (reports : List (Report ℝ)) (i : Fin (taking reports).length) : ℝ :=
  ((taking reports).get i).coefficient

/-- The consensus that the panel of the participants defines. -/
def ofPanel (config : Config ℝ) (reports : List (Report ℝ)) : Consensus ℝ :=
  conclude
    ((lossKeys (taking reports)).toList.map fun key =>
      (key, (roundPanel reports).level ((roundPanel reports).coefficients config (priors reports)) key))
    (reportsAt (taking reports).get ((roundPanel reports).coefficients config (priors reports)))
    (left reports) ((roundPanel reports).passes config (priors reports))

end

theorem concluded_ofPanel (config : Config ℝ) {reports : List (Report ℝ)}
    (stakes : checkStakes (taking reports) = .ok ()) :
    Concluded config reports (ofPanel config reports)
      (reportsAt (taking reports).get ((roundPanel reports).coefficients config (priors reports)))
      ((roundPanel reports).passes config (priors reports))
      ((lossKeys (taking reports)).toList.map fun key => (key, (roundPanel reports).level
        ((roundPanel reports).coefficients config (priors reports)) key)) where
  stakes := stakes
  settles := by
    rw [map_clamped]
    exact settle_reportsAt config (sound_of_checkStakes stakes) (priors reports) config.maxPasses 0
      (by omega) (by intro j early; omega)
  leveled := levelsOf_reportsAt (sound_of_checkStakes stakes)
    ((roundPanel reports).coefficientsAfter_nonneg config (priors reports)
      ((roundPanel reports).passes config (priors reports)))
  concludes := rfl

theorem aggregate_of_stakes (config : Config ℝ) {reports : List (Report ℝ)}
    (somebody : taking reports ≠ []) (stakes : checkStakes (taking reports) = .ok ()) :
    aggregate config reports = .ok (ofPanel config reports) :=
  (concluded_ofPanel config stakes).aggregate_eq_ok somebody

theorem aggregate_eq_ok {config : Config ℝ} {reports : List (Report ℝ)} {consensus : Consensus ℝ}
    (returned : aggregate config reports = .ok consensus) :
    (taking reports = [] ∧ consensus = conclude [] [] (left reports) 0) ∨
      (taking reports ≠ [] ∧ checkStakes (taking reports) = .ok () ∧
        consensus = ofPanel config reports) := by
  by_cases nobody : taking reports = []
  · rw [aggregate_of_nobody nobody] at returned
    cases returned
    exact .inl ⟨nobody, rfl⟩
  · obtain ⟨_, _, _, concluded⟩ := concluded_of_aggregate nobody returned
    rw [aggregate_of_stakes config nobody concluded.stakes] at returned
    cases returned
    exact .inr ⟨nobody, concluded.stakes, rfl⟩

theorem sound_of_aggregate {config : Config ℝ} {reports : List (Report ℝ)} {consensus : Consensus ℝ}
    (returned : aggregate config reports = .ok consensus) :
    Sound (taking reports).get (lossKeys (taking reports)) := by
  rcases aggregate_eq_ok returned with ⟨nobody, -⟩ | ⟨-, stakes, -⟩
  · rw [nobody]
    exact ⟨fun i => i.elim0, fun i => i.elim0, fun key => by simp [lossKeys, OrderedSet.mem_ofList]⟩
  · exact sound_of_checkStakes stakes

theorem aggregate_eq_error_iff {config : Config ℝ} {reports : List (Report ℝ)} {fault : Fault ℝ} :
    aggregate config reports = .error fault ↔
      taking reports ≠ [] ∧ checkStakes (taking reports) = .error fault := by
  by_cases nobody : taking reports = []
  · rw [aggregate_of_nobody nobody]
    constructor
    · intro wrong
      cases wrong
    · exact fun both => absurd nobody both.1
  · cases stakes : checkStakes (taking reports) with
    | ok =>
      rw [aggregate_of_stakes config nobody stakes]
      constructor
      · intro wrong
        cases wrong
      · rintro ⟨-, wrong⟩
        cases wrong
    | error refused =>
      have fails : aggregate config reports = .error refused := by
        unfold aggregate
        change (if (taking reports).isEmpty then _ else _) = _
        rw [if_neg (by simpa using nobody)]
        change (checkStakes (taking reports) >>= fun _ => _) = _
        rw [stakes]
        rfl
      rw [fails]
      constructor
      · intro same
        cases same
        exact ⟨nobody, rfl⟩
      · rintro ⟨-, same⟩
        cases same
        rfl

end RoundScoring.Consensus
