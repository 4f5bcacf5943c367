import RoundScoring.Proofs.Bech32.RoundTrip
import RoundScoring.Proofs.Consensus.Aggregate
import RoundScoring.Proofs.Consensus.Network
import RoundScoring.Proofs.Covering
import RoundScoring.Proofs.Rounds.Reading

/-!
Which categories count for a round. Each bundle is filtered against the same roster, so the levels of
the consensus have all keys of the categories that count for some participant, and no others; and
reputers and workers that they name are read back from their texts as the accounts that they were.
-/

namespace RoundScoring.Round

variable {R : Type} [Scalar R]

def Counts (required : Option String) (roster : OrderedSet Address)
    (submissions : List (Submission R)) (consensus : Consensus R) (category : Category) : Prop :=
  ∃ submission ∈ submissions, ∃ reputer coverage,
    Address.parse required submission.reputer = .ok reputer ∧ reputer ∈ consensus.participants ∧
    Coverage.filter required roster reputer submission.bundle = .ok coverage ∧
    category ∈ coverage.eligible

section Computed

variable {policy : Policy R} {topic : Int} {submissions : List (Submission R)} {ledger : Ledger R}
  {consensus : Consensus R} {reputers : List (Address × Bundle R)} {roster : OrderedSet Address}
  {reports : List (Consensus.Report R)}

theorem Computed.forall₂
    (computed : Computed policy topic submissions ledger consensus reputers roster reports) :
    List.Forall₂ (fun submission report =>
      Address.parse policy.required submission.reputer = .ok report.reputer ∧
      Coverage.filter policy.required roster report.reputer submission.bundle =
        .ok report.coverage) submissions reports := by
  have each := readReputers_eq_ok computed.read
  have reported := computed.reported
  clear computed
  induction each generalizing reports with
  | nil =>
    cases reported
    exact .nil
  | @cons submission pair submissions reputers head _ ih =>
    obtain ⟨report, later, first, rest, rfl⟩ := List.forall₂_cons_left_iff.mp reported
    have same : report.reputer = pair.1 := Coverage.reputer_of_filter first.coverage
    refine .cons ⟨?_, ?_⟩ (ih rest)
    · rw [same]
      exact head.1
    · rw [same, ← head.2]
      exact first.coverage

theorem Computed.readable
    (computed : Computed policy topic submissions ledger consensus reputers roster reports)
    {reputer : Address} (participates : reputer ∈ consensus.participants) :
    Address.parse policy.required reputer.text = .ok reputer := by
  obtain ⟨report, takes, rfl⟩ :=
    (Consensus.mem_participants_of_aggregate computed.aggregated).mp participates
  obtain ⟨_, -, parsed, -⟩ :=
    exists_left_of_forall₂ computed.forall₂ (List.mem_filter.mp takes).1
  exact Address.parse_text parsed

theorem takesPart_of_filter {required : Option String} {reputer : Address} {bundle : Bundle R}
    {report : Consensus.Report R}
    (filtered : Coverage.filter required roster reputer bundle = .ok report.coverage)
    {category : Category} (counts : category ∈ report.coverage.eligible) : report.takesPart := by
  have some : report.coverage.hasEligible := by
    unfold Coverage.hasEligible OrderedSet.isEmpty
    rw [Bool.not_eq_true', List.isEmpty_eq_false_iff]
    exact List.ne_nil_of_mem counts
  unfold Consensus.Report.takesPart
  rw [some, Bool.true_and, List.all_eq_true]
  exact fun entry inside => decide_eq_true (Coverage.proper_of_filter filtered entry inside)

theorem Computed.counts_iff
    (computed : Computed policy topic submissions ledger consensus reputers roster reports)
    (category : Category) :
    Counts policy.required roster submissions consensus category ↔
      ∃ report ∈ Consensus.taking reports, category ∈ report.coverage.eligible := by
  have participating : ∀ reputer, reputer ∈ consensus.participants ↔
      ∃ report ∈ Consensus.taking reports, report.reputer = reputer :=
    fun _ => Consensus.mem_participants_of_aggregate computed.aggregated
  constructor
  · rintro ⟨submission, inside, reputer, coverage, parsed, -, filtered, counts⟩
    obtain ⟨report, member, parsed', filtered'⟩ := exists_right_of_forall₂ computed.forall₂ inside
    rw [parsed] at parsed'
    cases parsed'
    rw [filtered] at filtered'
    cases filtered'
    exact ⟨report, List.mem_filter.mpr ⟨member, takesPart_of_filter filtered counts⟩, counts⟩
  · rintro ⟨report, takes, counts⟩
    obtain ⟨submission, inside, parsed, filtered⟩ :=
      exists_left_of_forall₂ computed.forall₂ (List.mem_filter.mp takes).1
    exact ⟨submission, inside, report.reputer, report.coverage, parsed,
      (participating _).mpr ⟨report, takes, rfl⟩, filtered, counts⟩

theorem Computed.filtered
    (computed : Computed policy topic submissions ledger consensus reputers roster reports) :
    Consensus.Filtered policy.required roster reports := by
  intro report inside
  obtain ⟨submission, -, -, filter⟩ := exists_left_of_forall₂ computed.forall₂ inside
  exact ⟨report.reputer, submission.bundle, filter⟩

theorem Computed.keyed
    (computed : Computed policy topic submissions ledger consensus reputers roster reports) :
    Consensus.Keyed policy.required roster
      (Counts policy.required roster submissions consensus) consensus := by
  have filtered := computed.filtered
  refine ⟨fun key => ?_, Consensus.ascending_levels_of_aggregate computed.aggregated,
    filtered.readable computed.aggregated, fun category counts => ?_⟩
  · rw [Consensus.mem_keys_levels_of_aggregate computed.aggregated]
    constructor
    · rintro ⟨report, takes, inside⟩
      obtain ⟨_, _, filter⟩ := filtered report (List.mem_filter.mp takes).1
      obtain ⟨category, counts, member⟩ := (Coverage.mem_keys_of_filter filter).mp inside
      exact ⟨category, (computed.counts_iff category).mpr ⟨report, takes, counts⟩, member⟩
    · rintro ⟨category, counts, member⟩
      obtain ⟨report, takes, counts⟩ := (computed.counts_iff category).mp counts
      obtain ⟨_, _, filter⟩ := filtered report (List.mem_filter.mp takes).1
      exact ⟨report, takes, (Coverage.mem_keys_of_filter filter).mpr ⟨category, counts, member⟩⟩
  · obtain ⟨report, takes, counts⟩ := (computed.counts_iff category).mp counts
    obtain ⟨_, _, filter⟩ := filtered report (List.mem_filter.mp takes).1
    exact Coverage.within_ne_nil_of_filter filter counts

end Computed

end RoundScoring.Round
