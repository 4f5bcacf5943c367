import RoundScoring.Consensus.Lemmas
import RoundScoring.Consensus.Result
import RoundScoring.Proofs.Tables

/-!
How a consensus comes about. It is either that of nobody, or the stakes of its participants passed,
their coefficients settled and every key has its level. Whatever else is proved of a consensus starts
from here.
-/

namespace RoundScoring.Consensus

variable {R : Type} [Scalar R]

def taking (reports : List (Report R)) : List (Report R) := reports.filter Report.takesPart

def left (reports : List (Report R)) : List Address :=
  (reports.filter (!·.takesPart)).map Report.reputer

/-- What a consensus among some participants was concluded from. -/
structure Concluded (config : Config R) (reports : List (Report R)) (consensus : Consensus R)
    (settled : List (Report R)) (passes : Nat) (levels : List (LossKey × R)) : Prop where
  stakes : checkStakes (taking reports) = .ok ()
  settles : settle config (lossKeys (taking reports)) config.maxPasses
    ((taking reports).map (Report.clamped config)) 0 = .ok (settled, passes)
  leveled : levelsOf (lossKeys (taking reports)) settled = .ok levels
  concludes : consensus = conclude levels settled (left reports) passes

theorem exists_stake_neg_iff {reports : List (Report R)} :
    (∃ report ∈ reports, report.stake < 0) ↔ ∃ stake ∈ reports.map Report.stake, stake < 0 := by
  simp only [List.mem_map, exists_exists_and_eq_and]

theorem aggregate_of_nobody {config : Config R} {reports : List (Report R)}
    (nobody : taking reports = []) :
    aggregate config reports = .ok (conclude [] [] (left reports) 0) := by
  unfold aggregate
  change (if (taking reports).isEmpty then _ else _) = _
  rw [nobody]
  rfl

theorem aggregate_of_somebody {config : Config R} {reports : List (Report R)}
    (somebody : taking reports ≠ []) :
    aggregate config reports =
      checkStakes (taking reports) >>= fun _ =>
        settle config (lossKeys (taking reports)) config.maxPasses
          ((taking reports).map (Report.clamped config)) 0 >>= fun settled =>
        levelsOf (lossKeys (taking reports)) settled.1 >>= fun levels =>
          .ok (conclude levels settled.1 (left reports) settled.2) := by
  unfold aggregate
  change (if (taking reports).isEmpty then _ else _) = _
  rw [if_neg (by simpa using somebody)]
  rfl

theorem Concluded.aggregate_eq_ok {config : Config R} {reports : List (Report R)}
    {consensus : Consensus R} {settled : List (Report R)} {passes : Nat}
    {levels : List (LossKey × R)} (somebody : taking reports ≠ [])
    (concluded : Concluded config reports consensus settled passes levels) :
    aggregate config reports = .ok consensus := by
  obtain ⟨stakes, settles, leveled, rfl⟩ := concluded
  rw [aggregate_of_somebody somebody]
  refine Fault.bind_eq_ok_iff.mpr ⟨_, stakes, Fault.bind_eq_ok_iff.mpr ⟨_, settles, ?_⟩⟩
  exact Fault.bind_eq_ok_iff.mpr ⟨_, leveled, rfl⟩

theorem concluded_of_aggregate {config : Config R} {reports : List (Report R)}
    {consensus : Consensus R} (somebody : taking reports ≠ [])
    (returned : aggregate config reports = .ok consensus) :
    ∃ settled passes levels, Concluded config reports consensus settled passes levels := by
  rw [aggregate_of_somebody somebody] at returned
  obtain ⟨_, stakes, rest⟩ := Fault.bind_eq_ok_iff.mp returned
  obtain ⟨⟨settled, passes⟩, settles, rest⟩ := Fault.bind_eq_ok_iff.mp rest
  obtain ⟨levels, leveled, rest⟩ := Fault.bind_eq_ok_iff.mp rest
  cases rest
  exact ⟨settled, passes, levels, stakes, settles, leveled, rfl⟩

theorem keys_conclude (levels : List (LossKey × R)) (settled : List (Report R))
    (excluded : List Address) (passes : Nat) :
    (conclude levels settled excluded passes).coefficients.keys =
      (conclude levels settled excluded passes).participants :=
  Table.keys_ofList_congr (by simp [Function.comp_def])

theorem keys_coefficients_of_aggregate {config : Config R} {reports : List (Report R)}
    {consensus : Consensus R} (returned : aggregate config reports = .ok consensus) :
    consensus.coefficients.keys = consensus.participants := by
  by_cases nobody : taking reports = []
  · rw [aggregate_of_nobody nobody] at returned
    cases returned
    exact keys_conclude _ _ _ _
  · obtain ⟨_, _, _, concluded⟩ := concluded_of_aggregate nobody returned
    rw [concluded.concludes]
    exact keys_conclude _ _ _ _

end RoundScoring.Consensus
