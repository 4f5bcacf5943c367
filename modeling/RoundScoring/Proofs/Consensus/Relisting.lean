import RoundScoring.Proofs.Consensus.Network
import RoundScoring.Proofs.Consensus.Shuffling
import RoundScoring.Proofs.Enumerations

/-!
Tables that list the same in another order. Reports whose losses are listed in another order come to
the same consensus, whatever the numbers are: passes ask for the loss under a key, and go through the
keys in their own order (`aggregate_of_relisted`). A consensus whose levels are listed in another order
has the same bundle, because its workers are put in order (`toBundle_of_perm`).
-/

namespace RoundScoring

namespace Consensus

variable {R : Type}

section Relisted

variable {report report' : Report R} {reports reports' : List (Report R)}

theorem Report.Relisted.lossAt?_eq (relisted : report.Relisted report') (key : LossKey) :
    report'.lossAt? key = report.lossAt? key :=
  (Table.get?_of_perm relisted.losses key).symm

theorem Report.Relisted.withCoefficient (relisted : report.Relisted report') {c c' : R}
    (same : c' = c) :
    Relisted { report with coefficient := c } { report' with coefficient := c' } :=
  { relisted with coefficient := same }

theorem lossKeys_of_relisted (each : List.Forall₂ Report.Relisted reports reports') :
    lossKeys reports' = lossKeys reports := by
  refine OrderedSet.ext fun key => ?_
  rw [mem_lossKeys, mem_lossKeys]
  constructor
  · rintro ⟨report', inside, brought⟩
    obtain ⟨report, member, relisted⟩ := exists_left_of_forall₂ each inside
    exact ⟨report, member, (relisted.losses.map Prod.fst).mem_iff.mpr brought⟩
  · rintro ⟨report, inside, brought⟩
    obtain ⟨report', member, relisted⟩ := exists_right_of_forall₂ each inside
    exact ⟨report', member, (relisted.losses.map Prod.fst).mem_iff.mp brought⟩

theorem map_stake_of_relisted (each : List.Forall₂ Report.Relisted reports reports') :
    reports'.map Report.stake = reports.map Report.stake :=
  map_eq_map_of_forall₂ (each.imp fun _ _ relisted => relisted.stake)

theorem map_coefficient_of_relisted (each : List.Forall₂ Report.Relisted reports reports') :
    reports'.map Report.coefficient = reports.map Report.coefficient :=
  map_eq_map_of_forall₂ (each.imp fun _ _ relisted => relisted.coefficient)

theorem reporters_of_relisted (each : List.Forall₂ Report.Relisted reports reports')
    (key : LossKey) : List.Forall₂ (fun heard heard' => heard.1.Relisted heard'.1 ∧ heard'.2 = heard.2)
      (reporters reports key) (reporters reports' key) := by
  refine List.rel_filterMap ?_ each
  intro report report' relisted
  dsimp only
  rw [relisted.lossAt?_eq]
  cases report.lossAt? key with
  | none => exact .none
  | some loss => exact .some ⟨relisted, rfl⟩

variable [Scalar R] {config : Config R} {keys : OrderedSet LossKey}

theorem weights_of_relisted (each : List.Forall₂ Report.Relisted reports reports') :
    weights reports' = weights reports := by
  have listened : reports'.map (fun report => report.stake * report.coefficient) =
      reports.map fun report => report.stake * report.coefficient :=
    map_eq_map_of_forall₂ (each.imp fun _ _ relisted => by rw [relisted.stake, relisted.coefficient])
  have equal : (reports'.map fun _ => (1 : R)) = reports.map fun _ => 1 :=
    map_eq_map_of_forall₂ (each.imp fun _ _ _ => rfl)
  unfold weights
  rw [listened, map_stake_of_relisted each, equal]

theorem levelAt_of_relisted (each : List.Forall₂ Report.Relisted reports reports')
    (key : LossKey) : levelAt reports' key = levelAt reports key := by
  have heard := reporters_of_relisted each key
  have speakers : List.Forall₂ Report.Relisted ((reporters reports key).map Prod.fst)
      ((reporters reports' key).map Prod.fst) :=
    List.rel_map (fun _ _ both => both.1) heard
  have losses : (reporters reports' key).map Prod.snd = (reporters reports key).map Prod.snd :=
    map_eq_map_of_forall₂ (heard.imp fun _ _ both => both.2)
  unfold levelAt
  dsimp only
  rw [weights_of_relisted speakers, losses]

theorem levelsOf_of_relisted (each : List.Forall₂ Report.Relisted reports reports') :
    levelsOf keys reports' = levelsOf keys reports := by
  unfold levelsOf
  simp only [levelAt_of_relisted each]

theorem Report.Relisted.deviation_eq (relisted : report.Relisted report')
    (levels : List (LossKey × R)) : deviation levels report' = deviation levels report := by
  unfold deviation
  simp only [relisted.lossAt?_eq]

theorem rescaled_of_relisted (each : List.Forall₂ Report.Relisted reports reports') :
    List.Forall₂ Report.Relisted (rescaled config reports) (rescaled config reports') := by
  unfold rescaled
  dsimp only
  rw [map_coefficient_of_relisted each]
  split
  next =>
    exact List.rel_map
      (fun _ _ relisted => relisted.withCoefficient (by rw [relisted.coefficient])) each
  next => exact each

theorem pass_of_relisted (each : List.Forall₂ Report.Relisted reports reports') :
    Fault.Alike (List.Forall₂ Report.Relisted) (pass config keys reports)
      (pass config keys reports') := by
  unfold pass
  rw [levelsOf_of_relisted each]
  cases levelsOf keys reports with
  | error fault => exact .error fault
  | ok levels =>
    refine .ok ?_
    have rated : List.Forall₂ (fun rated rated' => rated.1.Relisted rated'.1 ∧ rated'.2 = rated.2)
        (reports.map fun report => (report, agreement config (deviation levels report)))
        (reports'.map fun report => (report, agreement config (deviation levels report))) :=
      List.rel_map (fun _ _ relisted => ⟨relisted, by rw [relisted.deviation_eq]⟩) each
    rw [map_eq_map_of_forall₂ (rated.imp fun _ _ both => both.2)]
    refine rescaled_of_relisted (List.rel_map (fun rated rated' both => ?_) rated)
    refine both.1.withCoefficient ?_
    rw [both.2, both.1.coefficient]

theorem largestChange_of_relisted {moved moved' : List (Report R)}
    (each : List.Forall₂ Report.Relisted reports reports')
    (later : List.Forall₂ Report.Relisted moved moved') :
    largestChange reports' moved' = largestChange reports moved := by
  have changes : ∀ old new : List (Report R),
      List.zipWith (fun old new => Scalar.absolute (new.coefficient - old.coefficient)) old new =
        List.zipWith (fun x y => Scalar.absolute (y - x)) (old.map Report.coefficient)
          (new.map Report.coefficient) := by
    intro old new
    rw [List.zipWith_map]
  unfold largestChange
  rw [changes, changes, map_coefficient_of_relisted each, map_coefficient_of_relisted later]

theorem settle_of_relisted {remaining done : ℕ}
    (each : List.Forall₂ Report.Relisted reports reports') :
    Fault.Alike (fun before after => List.Forall₂ Report.Relisted before.1 after.1 ∧
        after.2 = before.2)
      (settle config keys remaining reports done) (settle config keys remaining reports' done) := by
  induction remaining generalizing reports reports' done with
  | zero => exact .ok ⟨each, rfl⟩
  | succ remaining ih =>
    refine (pass_of_relisted each).bind fun moved moved' _ later => ?_
    rw [largestChange_of_relisted each later]
    split
    next => exact .ok ⟨later, rfl⟩
    next => exact ih later

theorem checkStakes_of_relisted (each : List.Forall₂ Report.Relisted reports reports') :
    checkStakes reports' = checkStakes reports := by
  unfold checkStakes
  simp only [exists_stake_neg_iff, map_stake_of_relisted each]

theorem clamped_of_relisted (each : List.Forall₂ Report.Relisted reports reports') :
    List.Forall₂ Report.Relisted (reports.map (Report.clamped config))
      (reports'.map (Report.clamped config)) :=
  List.rel_map (fun _ _ relisted => relisted.withCoefficient (by rw [relisted.coefficient])) each

theorem conclude_of_relisted (each : List.Forall₂ Report.Relisted reports reports')
    (levels : List (LossKey × R)) (excluded : List Address) (passes : ℕ) :
    conclude levels reports' excluded passes = conclude levels reports excluded passes := by
  have scores : reports'.map (fun report => (report.reputer, 0 - deviation levels report)) =
      reports.map fun report => (report.reputer, 0 - deviation levels report) :=
    map_eq_map_of_forall₂ (each.imp fun _ _ relisted => by
      rw [relisted.reputer, relisted.deviation_eq])
  have coefficients : reports'.map (fun report => (report.reputer, report.coefficient)) =
      reports.map fun report => (report.reputer, report.coefficient) :=
    map_eq_map_of_forall₂ (each.imp fun _ _ relisted => by
      rw [relisted.reputer, relisted.coefficient])
  have deviations : reports'.map (fun report => (report.reputer, deviation levels report)) =
      reports.map fun report => (report.reputer, deviation levels report) :=
    map_eq_map_of_forall₂ (each.imp fun _ _ relisted => by
      rw [relisted.reputer, relisted.deviation_eq])
  unfold conclude
  rw [scores, coefficients, deviations]

theorem aggregate_of_relisted (each : List.Forall₂ Report.Relisted reports reports') :
    aggregate config reports' = aggregate config reports := by
  have taken : List.Forall₂ Report.Relisted (taking reports) (taking reports') :=
    filter_of_relisted each fun _ _ relisted => relisted.takesPart
  have lefts : left reports' = left reports :=
    map_eq_map_of_forall₂ ((filter_of_relisted each fun _ _ relisted =>
      congrArg (! ·) relisted.takesPart).imp fun _ _ relisted => relisted.reputer)
  by_cases nobody : taking reports = []
  · rw [nobody, List.forall₂_nil_left_iff] at taken
    rw [aggregate_of_nobody nobody, aggregate_of_nobody taken, lefts]
  · have somebody : taking reports' ≠ [] := by
      intro empty
      rw [empty, List.forall₂_nil_right_iff] at taken
      exact nobody taken
    rw [aggregate_of_somebody nobody, aggregate_of_somebody somebody, checkStakes_of_relisted taken,
      lossKeys_of_relisted taken, lefts]
    refine Fault.Alike.eq (.bind (.refl (fun _ => rfl) _) fun _ _ _ _ => ?_)
    refine (settle_of_relisted (clamped_of_relisted taken)).bind ?_
    rintro ⟨settled, passes⟩ ⟨settled', _⟩ - ⟨later, rfl⟩
    dsimp only at later ⊢
    rw [levelsOf_of_relisted later]
    refine .bind (.refl (fun _ => rfl) _) ?_
    rintro levels _ - rfl
    exact .ok (conclude_of_relisted later levels (left reports) _)

end Relisted

section Bundles

variable [Scalar R] {consensus consensus' : Consensus R}

theorem losses_of_perm (perm : consensus.levels.entries.Perm consensus'.levels.entries) :
    Fault.Alike List.Perm consensus.losses consensus'.losses :=
  Fault.alike_mapM_of_perm perm consensus.within_losses consensus'.within_losses

theorem toBundle_of_perm (perm : consensus.levels.entries.Perm consensus'.levels.entries)
    (topic : Int) : consensus'.toBundle topic = consensus.toBundle topic := by
  refine Fault.Alike.eq ((losses_of_perm perm).bind ?_)
  intro losses losses' computed moved
  have distinct : (losses.map Prod.fst).Nodup := keys_losses computed ▸ consensus.levels.distinct
  have distinct' : (losses'.map Prod.fst).Nodup := (moved.map Prod.fst).nodup_iff.mp distinct
  have found : ∀ key, losses'.lookup key = losses.lookup key := fun key =>
    (Table.get?_of_perm (t := ⟨losses, distinct⟩) (u := ⟨losses', distinct'⟩) moved key).symm
  rw [sortedBy_eq_of_perm (LossKey.distinct_places_of_entries distinct) moved]
  simp only [found]
  exact .ok rfl

end Bundles

end Consensus
end RoundScoring
