import RoundScoring.Proofs.Rounds.History
import RoundScoring.Proofs.Rounds.Roster
import RoundScoring.Proofs.Sparing

/-!
Who takes no part has no say. A reputer is left out of a consensus when no category of its bundle
counts, and for no other reason, be its stake or coefficient what it may. A round in which it had not
sent anything is the same round but for the list of those left out, and its own round leaves its
coefficient and its scores alone.
-/

namespace RoundScoring

open Keeper

variable {R : Type}

namespace Consensus

variable [Scalar R] {config : Config R} {reports fewer : List (Report R)} {consensus : Consensus R}

theorem excluded_of_aggregate (returned : aggregate config reports = .ok consensus) :
    consensus.excluded = left reports := by
  by_cases nobody : taking reports = []
  · rw [aggregate_of_nobody nobody] at returned
    cases returned
    rfl
  · obtain ⟨_, _, _, concluded⟩ := concluded_of_aggregate nobody returned
    rw [concluded.concludes]
    rfl

theorem aggregate_of_taking_eq (same : taking fewer = taking reports)
    (returned : aggregate config reports = .ok consensus) :
    aggregate config fewer = .ok { consensus with excluded := left fewer } := by
  by_cases nobody : taking reports = []
  · rw [aggregate_of_nobody nobody] at returned
    cases returned
    exact aggregate_of_nobody (same.trans nobody)
  · obtain ⟨settled, passes, levels, stakes, settles, leveled, concludes⟩ :=
      concluded_of_aggregate nobody returned
    have somebody : taking fewer ≠ [] := by rwa [same]
    rw [← same] at stakes settles leveled
    refine Concluded.aggregate_eq_ok somebody ⟨stakes, settles, leveled, ?_⟩
    rw [concludes]
    rfl

/-- No participant is among those left out, since nobody has two reports; so all who take part stay
when some of those left out are removed. -/
theorem taking_of_removed (distinct : (reports.map Report.reputer).Nodup) {removed : List Address}
    (among : ∀ reputer ∈ removed, reputer ∈ left reports) :
    taking (reports.filter (·.reputer ∉ removed)) = taking reports := by
  unfold taking
  rw [List.filter_filter]
  refine List.filter_congr fun report inside => ?_
  cases takes : report.takesPart with
  | false => rfl
  | true =>
    have stays : report.reputer ∉ removed := by
      intro out
      obtain ⟨other, member, same⟩ := List.mem_map.mp (among _ out)
      obtain ⟨inside', excluded⟩ := List.mem_filter.mp member
      rw [List.inj_on_of_nodup_map distinct inside' inside same, takes] at excluded
      cases excluded
    simpa using stays

theorem left_of_removed (reports : List (Report R)) (removed : List Address) :
    left (reports.filter (·.reputer ∉ removed)) = (left reports).filter (· ∉ removed) := by
  unfold left
  rw [List.filter_map, List.filter_filter, List.filter_filter]
  congr 1
  exact List.filter_congr fun report _ => Bool.and_comm _ _

theorem aggregate_of_removed (distinct : (reports.map Report.reputer).Nodup)
    (returned : aggregate config reports = .ok consensus) {removed : List Address}
    (among : ∀ reputer ∈ removed, reputer ∈ consensus.excluded) :
    aggregate config (reports.filter (·.reputer ∉ removed)) =
      .ok { consensus with excluded := consensus.excluded.filter (· ∉ removed) } := by
  rw [excluded_of_aggregate returned] at among ⊢
  rw [aggregate_of_taking_eq (taking_of_removed distinct among) returned, left_of_removed]

end Consensus

namespace Round

theorem refuseRepeated_eq_ok_iff {seen reputers : List Address} :
    refuseRepeated (R := R) seen reputers = .ok () ↔
      reputers.Nodup ∧ ∀ reputer ∈ reputers, reputer ∉ seen := by
  induction reputers generalizing seen with
  | nil => simp [refuseRepeated]
  | cons reputer rest ih =>
    unfold refuseRepeated
    split
    next again => simp [again]
    next fresh =>
      rw [ih, List.nodup_cons]
      constructor
      · rintro ⟨distinct, apart⟩
        refine ⟨⟨fun again => apart _ again List.mem_cons_self, distinct⟩,
          List.forall_mem_cons.mpr ⟨fresh, ?_⟩⟩
        exact fun other inside before => apart other inside (List.mem_cons_of_mem _ before)
      · rintro ⟨⟨once, distinct⟩, apart⟩
        refine ⟨distinct, fun other inside before => ?_⟩
        rcases List.mem_cons.mp before with rfl | before
        · exact once inside
        · exact apart other (List.mem_cons_of_mem _ inside) before

def Submission.isFrom (required : Option String) (reputers : List Address)
    (submission : Submission R) : Bool :=
  match Address.parse required submission.reputer with
  | .ok reputer => reputer ∈ reputers
  | .error _ => false

theorem Submission.ReadAs.isFrom {required : Option String} {submission : Submission R}
    {pair : Address × Bundle R} (read : submission.ReadAs required pair) (reputers : List Address) :
    submission.isFrom required reputers = decide (pair.1 ∈ reputers) := by
  unfold Submission.isFrom
  rw [read.1]

theorem readReputers_of_removed {required : Option String} {submissions : List (Submission R)}
    {reputers : List (Address × Bundle R)} (read : readReputers required submissions = .ok reputers)
    (removed : List Address) :
    readReputers required (submissions.filter (!·.isFrom required removed)) =
      .ok (reputers.filter (·.1 ∉ removed)) := by
  obtain ⟨each, distinct⟩ := readReputers_eq_ok_iff.mp read
  refine readReputers_eq_ok_iff.mpr ⟨List.rel_filter (fun submission pair read => ?_) each, ?_⟩
  · simp [read.isFrom]
  · have once := (refuseRepeated_eq_ok_iff.mp distinct).1
    exact refuseRepeated_eq_ok_iff.mpr
      ⟨once.sublist (List.filter_sublist.map Prod.fst), fun _ _ => List.not_mem_nil⟩

variable [Scalar R]

def countsNothing (required : Option String) (roster : OrderedSet Address)
    (pair : Address × Bundle R) : Bool :=
  match Coverage.filter required roster pair.1 pair.2 with
  | .ok coverage => !coverage.hasEligible
  | .error _ => false

theorem takesPart_eq_hasEligible {required : Option String} {roster : OrderedSet Address}
    {pair : Address × Bundle R} {report : Consensus.Report R}
    (filtered : Coverage.filter required roster pair.1 pair.2 = .ok report.coverage) :
    report.takesPart = report.coverage.hasEligible := by
  have proper : report.coverage.losses.entries.all (fun entry => Scalar.IsLoss entry.2) = true :=
    List.all_eq_true.mpr fun entry inside =>
      decide_eq_true (Coverage.proper_of_filter filtered entry inside)
  unfold Consensus.Report.takesPart
  rw [proper, Bool.and_true]

theorem Reported.countsNothing {policy : Policy R} {topic : Int} {ledger : Ledger R}
    {roster : OrderedSet Address} {pair : Address × Bundle R} {report : Consensus.Report R}
    (reported : Reported policy topic ledger roster pair report) :
    countsNothing policy.required roster pair = !report.takesPart := by
  unfold Round.countsNothing
  rw [reported.coverage, takesPart_eq_hasEligible reported.coverage]

section Computed

variable {policy : Policy R} {topic : Int} {submissions : List (Submission R)} {ledger : Ledger R}
  {consensus : Consensus R} {reputers : List (Address × Bundle R)} {roster : OrderedSet Address}
  {reports : List (Consensus.Report R)}

theorem Computed.map_reputer
    (computed : Computed policy topic submissions ledger consensus reputers roster reports) :
    reports.map Consensus.Report.reputer = reputers.map Prod.fst :=
  map_eq_map_of_forall₂ (computed.reported.imp fun _ _ reported =>
    Coverage.reputer_of_filter reported.coverage)

theorem Computed.nodup
    (computed : Computed policy topic submissions ledger consensus reputers roster reports) :
    (reports.map Consensus.Report.reputer).Nodup := by
  rw [computed.map_reputer]
  exact (refuseRepeated_eq_ok_iff.mp (readReputers_eq_ok_iff.mp computed.read).2).1

theorem Computed.excluded
    (computed : Computed policy topic submissions ledger consensus reputers roster reports) :
    consensus.excluded = (reputers.filter (countsNothing policy.required roster)).map Prod.fst := by
  have uncounted : List.Forall₂ (Reported policy topic ledger roster)
      (reputers.filter (countsNothing policy.required roster)) (reports.filter (!·.takesPart)) := by
    exact List.rel_filter (fun _ _ reported => iff_of_eq (congrArg (· = true) reported.countsNothing))
      computed.reported
  rw [Consensus.excluded_of_aggregate computed.aggregated]
  exact map_eq_map_of_forall₂ (uncounted.imp fun _ _ reported =>
    Coverage.reputer_of_filter reported.coverage)

theorem Computed.not_participant
    (computed : Computed policy topic submissions ledger consensus reputers roster reports)
    {reputer : Address} (excluded : reputer ∈ consensus.excluded) :
    reputer ∉ consensus.participants := by
  intro participates
  rw [Consensus.excluded_of_aggregate computed.aggregated] at excluded
  obtain ⟨report, out, rfl⟩ := List.mem_map.mp excluded
  obtain ⟨other, takes, same⟩ :=
    (Consensus.mem_participants_of_aggregate computed.aggregated).mp participates
  obtain ⟨inside, refused⟩ := List.mem_filter.mp out
  obtain ⟨inside', part⟩ := List.mem_filter.mp takes
  rw [← List.inj_on_of_nodup_map computed.nodup inside' inside same, part] at refused
  cases refused

theorem Computed.readable_excluded
    (computed : Computed policy topic submissions ledger consensus reputers roster reports)
    {reputer : Address} (excluded : reputer ∈ consensus.excluded) :
    Address.parse policy.required reputer.text = .ok reputer := by
  rw [Consensus.excluded_of_aggregate computed.aggregated] at excluded
  obtain ⟨report, out, rfl⟩ := List.mem_map.mp excluded
  obtain ⟨_, -, parsed, -⟩ :=
    exists_left_of_forall₂ computed.forall₂ (List.mem_filter.mp out).1
  exact Address.parse_text parsed

end Computed

section Runs

variable {policy : Policy R} {topic block : Int} {submissions : List (Submission R)}
  {keeper after : Keeper R}

/-- The keeper is asked for less, so it cannot fail now that it did not before. -/
theorem run_consensus_of_removed {result : Consensus R}
    (ran : keeper.run (consensus policy topic submissions) = (.ok result, after))
    {removed : List Address} (among : ∀ reputer ∈ removed, reputer ∈ result.excluded) :
    ∃ after', keeper.run (consensus policy topic
        (submissions.filter (!·.isFrom policy.required removed))) =
          (.ok { result with excluded := result.excluded.filter (· ∉ removed) }, after') ∧
      after'.ledger = keeper.ledger := by
  obtain ⟨reputers, readsReputers, rest⟩ := run_lift_bind_eq_ok_iff.mp ran
  obtain ⟨roster, known, readsRoster, rest⟩ := run_bind_eq_ok_iff.mp rest
  obtain ⟨reports, _, readsReports, rest⟩ := run_bind_eq_ok_iff.mp rest
  rw [run_lift] at rest
  have aggregated : Consensus.aggregate policy.consensus reports = .ok result := congrArg Prod.fst rest
  have computed : Computed policy topic submissions known.ledger result reputers roster reports := {
    read := readsReputers
    known := by
      rw [(keepsLedger_readRoster _).of_run readsRoster]
      exact run_readRoster_eq_ok readsRoster
    reported := reported_of_run_mapM readsReports
    aggregated := aggregated }
  have same : ∀ (pair : Address × Bundle R) (report : Consensus.Report R) (asked left : Keeper R),
      asked.run (readReport policy topic roster pair.1 pair.2) = (.ok report, left) →
      decide (report.reputer ∉ removed) = decide (pair.1 ∉ removed) := by
    intro pair report asked left ran
    have named : report.reputer = pair.1 :=
      Coverage.reputer_of_filter (reported_of_run ran).coverage
    rw [named]
  obtain ⟨after', fewer, -⟩ := (Milder.refl known).run_mapM_filter readsReports
    (fun pair => sparing_readReport policy topic roster pair.1 pair.2) same
  have again : keeper.run (consensus policy topic
      (submissions.filter (!·.isFrom policy.required removed))) =
        (.ok { result with excluded := result.excluded.filter (· ∉ removed) }, after') := by
    refine run_lift_bind_eq_ok_iff.mpr ⟨_, readReputers_of_removed readsReputers removed, ?_⟩
    refine run_bind_eq_ok_iff.mpr ⟨roster, known, readsRoster, ?_⟩
    refine run_bind_eq_ok_iff.mpr ⟨_, after', fewer, ?_⟩
    rw [run_lift, Consensus.aggregate_of_removed computed.nodup aggregated among]
  exact ⟨after', again, (keepsLedger_consensus _ _ _).of_run again⟩

theorem untouched_of_run_scoreReputers {scored : ReputerScores R}
    (ran : keeper.run (scoreReputers policy topic block submissions) = (.ok scored, after))
    {reputer : Address} (excluded : reputer ∈ scored.consensus.excluded) :
    after.ledger.coefficients.get? (topic, reputer) =
        keeper.ledger.coefficients.get? (topic, reputer) ∧
      ∀ kind, ∀ entry ∈ (after.ledger.scores kind).entries,
        entry ∈ (keeper.ledger.scores kind).entries ∨ entry.2.account ≠ reputer.text := by
  obtain ⟨_, _, _, computed⟩ := computed_of_run_scoreReputers ran
  have effect := reputersEffect_of_run ran
  have idle := computed.not_participant excluded
  constructor
  · refine effect.coefficients.get?_of_not_given fun given => idle ?_
    rw [← effect.participants]
    exact given.2
  · intro kind entry inside
    rw [effect.rest] at inside
    cases kind with
    | reputer =>
      change entry ∈ after.ledger.reputerScores.entries at inside
      rw [effect.scores.entries, List.mem_append] at inside
      refine inside.imp id fun new account => ?_
      obtain ⟨score, scores, rfl⟩ := List.mem_map.mp new
      rw [reputers_of_run_scoreReputers ran] at scores
      obtain ⟨⟨participant, value⟩, listed, rfl⟩ := List.mem_map.mp scores
      have participates := List.mem_map_of_mem (f := Prod.fst) listed
      have same : participant = reputer := Address.eq_of_text_eq (computed.readable participates)
        (computed.readable_excluded excluded) account
      exact idle (same ▸ participates)
    | inference => exact .inl inside
    | forecast => exact .inl inside

end Runs

end Round

variable [Scalar R]

/-- The keeper may be out of order, and may have any stakes and coefficients, of those left out too. -/
theorem excluded_reputers_have_no_influence {policy : Policy R} {topic : Int}
    {submissions : List (Round.Submission R)} {keeper after : Keeper R} :
    (∀ consensus,
      keeper.run (Round.consensus policy topic submissions) = (.ok consensus, after) →
      (∃ reputers roster, Round.readReputers policy.required submissions = .ok reputers ∧
        keeper.ledger.rosters.get? topic = some roster ∧ consensus.excluded =
          (reputers.filter (Round.countsNothing policy.required roster)).map Prod.fst) ∧
      ∀ removed : List Address, (∀ reputer ∈ removed, reputer ∈ consensus.excluded) →
        ∃ after', keeper.run (Round.consensus policy topic
            (submissions.filter (!·.isFrom policy.required removed))) =
              (.ok { consensus with excluded := consensus.excluded.filter (· ∉ removed) }, after') ∧
          after'.ledger = keeper.ledger) ∧
    ∀ block scored,
      keeper.run (Round.scoreReputers policy topic block submissions) = (.ok scored, after) →
      ∀ reputer ∈ scored.consensus.excluded,
        after.ledger.coefficients.get? (topic, reputer) =
          keeper.ledger.coefficients.get? (topic, reputer) ∧
        ∀ kind, ∀ entry ∈ (after.ledger.scores kind).entries,
          entry ∈ (keeper.ledger.scores kind).entries ∨ entry.2.account ≠ reputer.text := by
  constructor
  · intro consensus ran
    obtain ⟨reputers, roster, _, computed⟩ := Round.computed_of_run ran
    exact ⟨⟨reputers, roster, computed.read, computed.known, computed.excluded⟩,
      fun removed among => Round.run_consensus_of_removed ran among⟩
  · intro block scored ran reputer excluded
    exact Round.untouched_of_run_scoreReputers ran excluded

theorem Keeper.exists_ok_of_toOption {α β : Type} {outcome : Except (Fault R) α × Keeper R}
    {shown : α → β} {b : β} (seen : outcome.1.toOption.map shown = some b) :
    ∃ a after, outcome = (.ok a, after) ∧ shown a = b := by
  obtain ⟨fault | a, after⟩ := outcome
  · cases seen
  · exact ⟨a, after, rfl, Option.some.inj seen⟩

/-- A bundle in which nothing counts: its loss has no logarithm, and it names half of the roster. -/
def Bundle.idle : Bundle Float where
  topic := 1
  combined := some 0
  naive := none
  oneOutInferer := [⟨(Address.sample 2).text, 2⟩]
  oneOutForecaster := []
  oneInForecaster := []

/-- A keeper that knows of a second reputer, whose stake is below zero, and that lets two stakes be
read. -/
def Keeper.sample : Keeper Float where
  ledger := {
    stakes := .ofList [((1, .sample 9), 1), ((1, .sample 8), -1)]
    rosters := .ofList [(1, .sample)] }
  outage := some {
    call := .readStake
    spared := 2
    exception := ⟨"RuntimeError", runtimeError_not_interruption⟩
    message := "store is read-only" }

def Round.Submission.samples : List (Round.Submission Float) :=
  [.sample 3 2, ⟨(Address.sample 8).text, .idle⟩]

theorem idle_reputer_has_no_influence :
    let policy : Policy Float := (Engine.sample .usual).policy
    (∃ consensus after after',
      Keeper.sample.run (Round.consensus policy 1 Round.Submission.samples) =
        (.ok consensus, after) ∧ consensus.excluded = [.sample 8] ∧
      Keeper.sample.run (Round.consensus policy 1
        (Round.Submission.samples.filter (!·.isFrom policy.required [.sample 8]))) =
          (.ok { consensus with excluded := [.sample 8].filter (· ∉ [Address.sample 8]) }, after')) ∧
    ∃ scored after,
      Keeper.sample.run (Round.scoreReputers policy 1 1 Round.Submission.samples) =
        (.ok scored, after) ∧ scored.consensus.excluded = [.sample 8] ∧
      after.ledger.coefficients.get? (1, .sample 8) =
        Keeper.sample.ledger.coefficients.get? (1, .sample 8) := by
  have excluded : (Keeper.sample.run (Round.consensus (Engine.sample .usual).policy 1
      Round.Submission.samples)).1.toOption.map Consensus.excluded = some [.sample 8] := by
    decide +kernel
  have excluded' : (Keeper.sample.run (Round.scoreReputers (Engine.sample .usual).policy 1 1
      Round.Submission.samples)).1.toOption.map (·.consensus.excluded) = some [.sample 8] := by
    decide +kernel
  constructor
  · obtain ⟨consensus, after, ran, listed⟩ := Keeper.exists_ok_of_toOption excluded
    have among : ∀ reputer ∈ [Address.sample 8], reputer ∈ consensus.excluded := by
      rw [listed]
      exact fun _ inside => inside
    obtain ⟨after', again, -⟩ :=
      (excluded_reputers_have_no_influence.1 consensus ran).2 [.sample 8] among
    rw [listed] at again
    exact ⟨consensus, after, after', ran, listed, again⟩
  · obtain ⟨scored, after, ran, listed⟩ := Keeper.exists_ok_of_toOption excluded'
    have inside : Address.sample 8 ∈ scored.consensus.excluded := by
      rw [listed]
      exact List.mem_singleton_self _
    exact ⟨scored, after, ran, listed, (excluded_reputers_have_no_influence.2 1 scored ran _ inside).1⟩

end RoundScoring
