import RoundScoring.Proofs.Keeping
import RoundScoring.Proofs.Tables

/-!
One topic's part of a keeper. Every table is keyed by topic among other things, so the ledger falls
into parts, one for each topic. Work is confined to a topic when what it does depends on that topic's
part alone, and the parts of all other topics stay as they are (`Keeper.Confined`). A transaction that
fails brings back whole tables; it is confined all the same, since what it takes back is work on its
topic.
-/

namespace RoundScoring

namespace Table

variable {κ α : Type}

def restrict (t : Table κ α) (among : κ → Prop) [DecidablePred among] : Table κ α :=
  ⟨t.entries.filter (among ·.1), t.distinct.sublist (List.filter_sublist.map Prod.fst)⟩

variable [DecidableEq κ] (among : κ → Prop) [DecidablePred among]

theorem filter_putEntry (k : κ) (v : α) (es : List (κ × α)) :
    (putEntry k v es).filter (among ·.1) =
      if among k then putEntry k v (es.filter (among ·.1)) else es.filter (among ·.1) := by
  induction es with
  | nil => by_cases inside : among k <;> simp [putEntry, inside]
  | cons e es ih =>
    obtain ⟨other, w⟩ := e
    rw [putEntry]
    by_cases same : other = k
    · subst same
      by_cases inside : among other <;> simp [putEntry, inside]
    · by_cases kept : among other
      · rw [if_neg same, List.filter_cons_of_pos (by simpa using kept), ih,
          List.filter_cons_of_pos (by simpa using kept)]
        by_cases inside : among k <;> simp [putEntry, inside, same]
      · rw [if_neg same, List.filter_cons_of_neg (by simpa using kept), ih,
          List.filter_cons_of_neg (by simpa using kept)]

theorem restrict_put (t : Table κ α) (k : κ) (v : α) :
    (t.put k v).restrict among = if among k then (t.restrict among).put k v else t.restrict among := by
  apply Table.ext
  refine (filter_putEntry among k v t.entries).trans ?_
  split <;> rfl

theorem get?_restrict (t : Table κ α) (k : κ) :
    (t.restrict among).get? k = if among k then t.get? k else none := by
  have general : ∀ es : List (κ × α),
      (es.filter (among ·.1)).lookup k = if among k then es.lookup k else none := by
    intro es
    induction es with
    | nil => simp
    | cons e es ih =>
      obtain ⟨other, w⟩ := e
      by_cases kept : among other
      · rw [List.filter_cons_of_pos (by simpa using kept), lookup_entry, lookup_entry, ih]
        by_cases here : k = other <;> simp [here, kept]
      · rw [List.filter_cons_of_neg (by simpa using kept), lookup_entry, ih]
        by_cases here : k = other <;> simp [here, kept]
  exact general t.entries

end Table

variable {R : Type} [Scalar R]

namespace Ledger

/-- What the tables hold of one topic, in the order in which they hold it. -/
def ofTopic (ledger : Ledger R) (topic : Int) : Ledger R where
  stakes := ledger.stakes.restrict (·.1 = topic)
  coefficients := ledger.coefficients.restrict (·.1 = topic)
  rosters := ledger.rosters.restrict (· = topic)
  reputerScores := ledger.reputerScores.restrict (·.topic = topic)
  inferenceScores := ledger.inferenceScores.restrict (·.topic = topic)
  forecastScores := ledger.forecastScores.restrict (·.topic = topic)

theorem scores_ofTopic (ledger : Ledger R) (topic : Int) (kind : ScoreKind) :
    (ledger.ofTopic topic).scores kind = (ledger.scores kind).restrict (·.topic = topic) := by
  cases kind <;> rfl

theorem ofTopic_withScores (ledger : Ledger R) (topic : Int) (kind : ScoreKind)
    (table : Table ScoreKey (Score R)) :
    (ledger.withScores kind table).ofTopic topic =
      (ledger.ofTopic topic).withScores kind (table.restrict (·.topic = topic)) := by
  cases kind <;> rfl

section SamePart

variable {ledger other : Ledger R} {topic : Int} (same : ledger.ofTopic topic = other.ofTopic topic)

include same

theorem get?_stakes_of_same (reputer : Address) :
    ledger.stakes.get? (topic, reputer) = other.stakes.get? (topic, reputer) := by
  have found := congrArg (fun part => part.stakes.get? (topic, reputer)) same
  simpa [ofTopic, Table.get?_restrict] using found

theorem get?_coefficients_of_same (reputer : Address) :
    ledger.coefficients.get? (topic, reputer) = other.coefficients.get? (topic, reputer) := by
  have found := congrArg (fun part => part.coefficients.get? (topic, reputer)) same
  simpa [ofTopic, Table.get?_restrict] using found

theorem get?_rosters_of_same : ledger.rosters.get? topic = other.rosters.get? topic := by
  have found := congrArg (fun part => part.rosters.get? topic) same
  simpa [ofTopic, Table.get?_restrict] using found

theorem get?_scores_of_same (kind : ScoreKind) (block : Int) (account : String) :
    (ledger.scores kind).get? ⟨topic, block, account⟩ =
      (other.scores kind).get? ⟨topic, block, account⟩ := by
  have found := congrArg (fun part => (part.scores kind).get? ⟨topic, block, account⟩) same
  simpa [scores_ofTopic, Table.get?_restrict] using found

end SamePart

/-- The same entries in every table, maybe in another order. -/
structure SameMaps (ledger other : Ledger R) : Prop where
  stakes : ∀ key, ledger.stakes.get? key = other.stakes.get? key
  coefficients : ∀ key, ledger.coefficients.get? key = other.coefficients.get? key
  rosters : ∀ topic, ledger.rosters.get? topic = other.rosters.get? topic
  scores : ∀ kind key, (ledger.scores kind).get? key = (other.scores kind).get? key

theorem SameMaps.of_topics {ledger other : Ledger R}
    (each : ∀ topic, ledger.ofTopic topic = other.ofTopic topic) : ledger.SameMaps other where
  stakes := fun (topic, reputer) => get?_stakes_of_same (each topic) reputer
  coefficients := fun (topic, reputer) => get?_coefficients_of_same (each topic) reputer
  rosters := fun topic => get?_rosters_of_same (each topic)
  scores := fun kind ⟨topic, block, account⟩ => get?_scores_of_same (each topic) kind block account

end Ledger

namespace Keeper

variable {α β : Type} {topic : Int}

/-- Two keepers that hold the same of a topic, and fail alike. -/
structure SameOn (topic : Int) (keeper other : Keeper R) : Prop where
  outage : keeper.outage = other.outage
  part : keeper.ledger.ofTopic topic = other.ledger.ofTopic topic

/-- Work on one topic: keepers that hold the same of it come out alike, and the parts of all other
topics stay as they are, whether the work returns or fails. -/
structure Confined (topic : Int) (work : Keeping R α) : Prop where
  reads : ∀ keeper other : Keeper R, SameOn topic keeper other →
    (keeper.run work).1 = (other.run work).1 ∧ SameOn topic (keeper.run work).2 (other.run work).2
  writes : ∀ (keeper : Keeper R) (elsewhere : Int), elsewhere ≠ topic →
    (keeper.run work).2.ledger.ofTopic elsewhere = keeper.ledger.ofTopic elsewhere

theorem confined_pure (a : α) : Confined topic (pure a : Keeping R α) :=
  ⟨fun _ _ same => ⟨rfl, same⟩, fun _ _ _ => rfl⟩

theorem confined_throw (fault : Fault R) : Confined topic (throw fault : Keeping R α) :=
  ⟨fun _ _ same => ⟨rfl, same⟩, fun _ _ _ => rfl⟩

theorem confined_lift (outcome : Except (Fault R) α) :
    Confined topic (liftM outcome : Keeping R α) := by
  cases outcome with
  | error fault => exact confined_throw fault
  | ok a => exact confined_pure a

theorem confined_attempt (call : Call) : Confined topic (attempt call : Keeping R Unit) := by
  refine ⟨?_, fun keeper elsewhere _ => by rw [ledger_run_attempt]⟩
  rintro keeper other ⟨outage, part⟩
  rw [run_attempt, run_attempt, ← outage]
  split
  next => exact ⟨rfl, outage, part⟩
  next =>
    split
    next =>
      split
      next => exact ⟨rfl, outage, part⟩
      next => exact ⟨rfl, rfl, part⟩
    next => exact ⟨rfl, outage, part⟩

theorem confined_writeLedger {change : Ledger R → Ledger R}
    (reads : ∀ ledger other, ledger.ofTopic topic = other.ofTopic topic →
      (change ledger).ofTopic topic = (change other).ofTopic topic)
    (writes : ∀ ledger elsewhere, elsewhere ≠ topic →
      (change ledger).ofTopic elsewhere = ledger.ofTopic elsewhere) :
    Confined topic (writeLedger change) where
  reads := fun _ _ same => ⟨rfl, same.outage, reads _ _ same.part⟩
  writes := fun keeper elsewhere away => writes keeper.ledger elsewhere away

theorem Confined.bind {work : Keeping R α} {next : α → Keeping R β} (first : Confined topic work)
    (second : ∀ a, Confined topic (next a)) : Confined topic (work >>= next) := by
  constructor
  · intro keeper other same
    obtain ⟨outcome, between⟩ := first.reads keeper other same
    rw [run_bind, run_bind]
    generalize keeper.run work = ran at outcome between ⊢
    generalize other.run work = ran' at outcome between ⊢
    obtain ⟨found, after⟩ := ran
    obtain ⟨found', after'⟩ := ran'
    cases outcome
    cases found with
    | error fault => exact ⟨rfl, between⟩
    | ok a => exact (second a).reads after after' between
  · intro keeper elsewhere away
    have kept := first.writes keeper elsewhere away
    rw [run_bind]
    split
    next a between ran =>
      rw [ran] at kept
      exact ((second a).writes between elsewhere away).trans kept
    next ran =>
      rw [ran] at kept
      exact kept

theorem confined_readLedger {next : Ledger R → Keeping R α}
    (reads : ∀ ledger other, ledger.ofTopic topic = other.ofTopic topic → next ledger = next other)
    (each : ∀ ledger, Confined topic (next ledger)) : Confined topic (readLedger >>= next) := by
  constructor
  · intro keeper other same
    rw [run_bind, run_bind, run_readLedger, run_readLedger]
    dsimp only
    rw [reads _ _ same.part]
    exact (each _).reads keeper other same
  · intro keeper elsewhere away
    exact (each keeper.ledger).writes keeper elsewhere away

theorem confined_mapM {step : α → Keeping R β} (each : ∀ a, Confined topic (step a)) (as : List α) :
    Confined topic (as.mapM step) := by
  induction as with
  | nil => exact confined_pure []
  | cons a as ih =>
    rw [List.mapM_cons]
    exact (each a).bind fun b => ih.bind fun bs => confined_pure (b :: bs)

theorem confined_forM {step : α → Keeping R PUnit} (each : ∀ a, Confined topic (step a))
    (as : List α) : Confined topic (as.forM step) := by
  induction as with
  | nil => exact confined_pure _
  | cons a as ih => exact (each a).bind fun _ => ih

theorem Confined.undoing {body : Keeping R α} (confined : Confined topic body) :
    Confined topic (undoing body) := by
  constructor
  · intro keeper other same
    obtain ⟨outcome, after⟩ := confined.reads keeper other same
    rw [run_undoing, run_undoing]
    generalize keeper.run body = ran at outcome after ⊢
    generalize other.run body = ran' at outcome after ⊢
    obtain ⟨found, left⟩ := ran
    obtain ⟨found', left'⟩ := ran'
    cases outcome
    cases found with
    | error fault => exact ⟨rfl, after.outage, same.part⟩
    | ok a => exact ⟨rfl, after⟩
  · intro keeper elsewhere away
    have kept := confined.writes keeper elsewhere away
    rw [run_undoing]
    split
    next ran =>
      rw [ran] at kept
      exact kept
    next => rfl

theorem Confined.transaction {body : Keeping R α} (confined : Confined topic body) :
    Confined topic (transaction body) :=
  (confined_attempt _).bind fun _ => confined.undoing

theorem confined_readStake (topic : Int) (reputer : Address) :
    Confined topic (readStake topic reputer : Keeping R R) := by
  refine (confined_attempt _).bind fun _ => confined_readLedger ?_ fun ledger => ?_
  · intro ledger other same
    rw [Ledger.get?_stakes_of_same same]
  · split
    next stake _ => exact confined_pure stake
    next => exact confined_throw _

theorem confined_readCoefficient (topic : Int) (reputer : Address) :
    Confined topic (readCoefficient topic reputer : Keeping R R) := by
  refine (confined_attempt _).bind fun _ => confined_readLedger ?_ fun _ => confined_pure _
  intro ledger other same
  unfold Ledger.coefficient
  rw [Ledger.get?_coefficients_of_same same]

theorem confined_readRoster (topic : Int) :
    Confined topic (readRoster topic : Keeping R (OrderedSet Address)) := by
  refine (confined_attempt _).bind fun _ => confined_readLedger ?_ fun ledger => ?_
  · intro ledger other same
    rw [Ledger.get?_rosters_of_same same]
  · split
    next roster _ => exact confined_pure roster
    next => exact confined_throw _

theorem confined_writeCoefficient (topic : Int) (reputer : Address) (value : R) :
    Confined topic (writeCoefficient topic reputer value) := by
  unfold writeCoefficient
  split
  next nonneg =>
    refine (confined_attempt _).bind fun _ => confined_writeLedger ?_ ?_
    · intro ledger other same
      have put : ∀ ledger : Ledger R, ({ ledger with
          coefficients := ledger.coefficients.put (topic, reputer) ⟨value, nonneg⟩ }).ofTopic topic =
          { ledger.ofTopic topic with
            coefficients := (ledger.ofTopic topic).coefficients.put (topic, reputer)
              ⟨value, nonneg⟩ } := by
        intro ledger
        simp [Ledger.ofTopic, Table.restrict_put]
      rw [put, put, same]
    · intro ledger elsewhere away
      simp [Ledger.ofTopic, Table.restrict_put, away.symm]
  next => exact confined_throw _

theorem confined_insertScore (kind : ScoreKind) (topic block : Int) (score : Score R) :
    Confined topic (insertScore kind topic block score) := by
  refine (confined_attempt _).bind fun _ => ?_
  -- What is written holds the whole table that was read, so both are looked at together.
  have ran : ∀ keeper : Keeper R, keeper.run (do
      let table := (← readLedger).scores kind
      let key : ScoreKey := ⟨topic, block, score.account⟩
      if key ∈ table.keys then throw (.scoreRecorded kind score.account topic block)
      else writeLedger fun ledger => ledger.withScores kind (table.put key score)) =
      if (keeper.ledger.scores kind).get? ⟨topic, block, score.account⟩ = none then
        (.ok (), { keeper with
          ledger := keeper.ledger.withScores kind
            ((keeper.ledger.scores kind).put ⟨topic, block, score.account⟩ score) })
      else (.error (.scoreRecorded kind score.account topic block), keeper) := by
    intro keeper
    simp only [Table.get?_eq_none_iff, run_bind, run_readLedger]
    by_cases known : (⟨topic, block, score.account⟩ : ScoreKey) ∈ (keeper.ledger.scores kind).keys
    · rw [if_pos known, if_neg (not_not.mpr known)]
      rfl
    · rw [if_neg known, if_pos known]
      rfl
  constructor
  · intro keeper other same
    rw [ran, ran, Ledger.get?_scores_of_same same.part]
    split
    next =>
      refine ⟨rfl, same.outage, ?_⟩
      dsimp only
      rw [Ledger.ofTopic_withScores, Ledger.ofTopic_withScores, Table.restrict_put,
        Table.restrict_put, if_pos rfl, if_pos rfl, ← Ledger.scores_ofTopic, ← Ledger.scores_ofTopic,
        same.part]
    next => exact ⟨rfl, same⟩
  · intro keeper elsewhere away
    rw [ran]
    split
    next =>
      dsimp only
      rw [Ledger.ofTopic_withScores, Table.restrict_put, if_neg away.symm, ← Ledger.scores_ofTopic]
      cases kind <;> rfl
    next => rfl

end Keeper
end RoundScoring
