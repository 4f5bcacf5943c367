import RoundScoring.Proofs.Traversal
import RoundScoring.Proofs.Tables
import RoundScoring.Round.Workers

/-!
Whom the workers' part of a round scores. An inferer is scored for each loss of the network without
it; a forecaster for each loss of the network with it alone, if there is one without it as well. All
that can come of a network is said once for each of them (`Round.inferenceScores_eq_ok_iff`,
`Round.forecastScores_eq_ok_iff`).
-/

namespace RoundScoring

variable {R : Type} [Scalar R]

theorem Loss.workerScore_eq_ok {loss heldOut score : R}
    (scored : workerScore loss heldOut = .ok score) :
    score = Scalar.log10 heldOut - Scalar.log10 loss := by
  obtain ⟨_, _, rest⟩ := Fault.bind_eq_ok_iff.mp scored
  obtain ⟨_, _, packed⟩ := Fault.bind_eq_ok_iff.mp rest
  cases packed
  rfl

theorem Loss.forecastScore_eq_ok {oneIn oneOut factor score : R}
    (scored : forecastScore oneIn oneOut factor = .ok score) :
    score = factor * oneIn + (1 - factor) * oneOut := by
  unfold forecastScore at scored
  split at scored
  next =>
    cases scored
    rfl
  next => cases scored

namespace Round

section Parts

variable {policy : Policy R} {topic block : Int} {strict : Bool} {network : Bundle R}

omit [Scalar R] in
theorem networkLoss_eq_ok_iff {category : WholeCategory} {loss : Option R} :
    networkLoss strict network category = .ok loss ↔
      network.whole category = loss ∧ (loss = none → strict = false) := by
  unfold networkLoss
  cases network.whole category with
  | some known =>
    constructor
    · intro same
      cases same
      exact ⟨rfl, fun none => by cases none⟩
    · rintro ⟨rfl, -⟩
      rfl
  | none =>
    cases strict with
    | true =>
      constructor
      · intro same
        cases same
      · rintro ⟨rfl, lax⟩
        cases lax rfl
    | false =>
      constructor
      · intro same
        cases same
        exact ⟨rfl, fun _ => rfl⟩
      · rintro ⟨rfl, -⟩
        rfl

inductive Inferred (topic block : Int) (strict : Bool) (network : Bundle R)
    (oneOut : Table Address R) : Option (List (Score R)) → Prop
  | nobody (empty : oneOut.entries = []) : Inferred topic block strict network oneOut none
  | lacking (lax : strict = false) (missing : network.whole .combined = none) :
      Inferred topic block strict network oneOut none
  | scored {full : R} {scores : List (Score R)} (somebody : oneOut.entries ≠ [])
      (whole : network.whole .combined = some full)
      (each : List.Forall₂ (fun pair score => ∃ value, Loss.workerScore full pair.2 = .ok value ∧
        score = ⟨topic, block, pair.1.text, value⟩) oneOut.entries scores) :
      Inferred topic block strict network oneOut (some scores)

theorem inferenceScores_eq_ok_iff {scores : Option (List (Score R))} :
    inferenceScores policy topic block strict network = .ok scores ↔
      ∃ oneOut, network.valuesFor policy.required .oneOutInferer = .ok oneOut ∧
        Inferred topic block strict network oneOut scores := by
  unfold inferenceScores
  rw [Fault.bind_eq_ok_iff]
  refine exists_congr fun oneOut => and_congr_right fun _ => ?_
  have made : ∀ (full : R) (pair : Address × R) (score : Score R),
      (do return ⟨topic, block, pair.1.text, ← Loss.workerScore full pair.2⟩) =
          (.ok score : Except (Fault R) _) ↔
        ∃ value, Loss.workerScore full pair.2 = .ok value ∧
          score = ⟨topic, block, pair.1.text, value⟩ := by
    intro full pair score
    rw [Fault.bind_eq_ok_iff]
    refine exists_congr fun value => and_congr_right fun _ => ?_
    exact ⟨fun same => (Except.ok.inj same).symm, fun same => congrArg Except.ok same.symm⟩
  by_cases nobody : oneOut.entries = []
  · rw [if_pos (List.isEmpty_iff.mpr nobody)]
    constructor
    · intro same
      cases same
      exact .nobody nobody
    · intro inferred
      cases inferred with
      | nobody | lacking => rfl
      | scored somebody => exact absurd nobody somebody
  · rw [if_neg (mt List.isEmpty_iff.mp nobody), Fault.bind_eq_ok_iff]
    constructor
    · rintro ⟨full?, known, rest⟩
      obtain ⟨whole, lax⟩ := networkLoss_eq_ok_iff.mp known
      cases full? with
      | none =>
        cases rest
        exact .lacking (lax rfl) whole
      | some full =>
        obtain ⟨written, each, packed⟩ := Fault.bind_eq_ok_iff.mp rest
        cases packed
        exact .scored nobody whole ((Fault.mapM_eq_ok_iff.mp each).imp fun _ _ => (made _ _ _).mp)
    · intro inferred
      cases inferred with
      | nobody empty => exact absurd empty nobody
      | lacking lax missing => exact ⟨none, networkLoss_eq_ok_iff.mpr ⟨missing, fun _ => lax⟩, rfl⟩
      | @scored full scores somebody whole each =>
        refine ⟨some full, networkLoss_eq_ok_iff.mpr ⟨whole, fun none => by cases none⟩, ?_⟩
        refine Fault.bind_eq_ok_iff.mpr ⟨scores, Fault.mapM_eq_ok_iff.mpr ?_, rfl⟩
        exact each.imp fun _ _ => (made _ _ _).mpr

theorem Inferred.of_strict {strict' : Bool} {oneOut : Table Address R}
    {scores : Option (List (Score R))}
    (inferred : Inferred topic block strict network oneOut scores)
    (allowed : oneOut.entries ≠ [] → network.whole .combined = none → strict' = false) :
    Inferred topic block strict' network oneOut scores := by
  cases inferred with
  | nobody empty => exact .nobody empty
  | lacking _ missing =>
    by_cases nobody : oneOut.entries = []
    · exact .nobody nobody
    · exact .lacking (allowed nobody missing) missing
  | scored somebody whole each => exact .scored somebody whole each

/-- The score of an inferer is the logarithm of the loss without it, less that of the full loss. -/
def InfererScore (topic block : Int) (full : R) (pair : Address × R) (score : Score R) : Prop :=
  score = ⟨topic, block, pair.1.text, Scalar.log10 pair.2 - Scalar.log10 full⟩

theorem inferenceScores_eq_ok {scores : Option (List (Score R))} {oneOut : Table Address R}
    (read : network.valuesFor policy.required .oneOutInferer = .ok oneOut)
    (scored : inferenceScores policy topic block strict network = .ok scores) :
    ((oneOut.entries = [] ∨ network.whole .combined = none) ∧ scores = none) ∨
      ∃ full written, network.whole .combined = some full ∧ oneOut.entries ≠ [] ∧
        scores = some written ∧
        List.Forall₂ (InfererScore topic block full) oneOut.entries written := by
  obtain ⟨_, read', inferred⟩ := inferenceScores_eq_ok_iff.mp scored
  rw [read] at read'
  cases read'
  cases inferred with
  | nobody empty => exact .inl ⟨.inl empty, rfl⟩
  | lacking _ missing => exact .inl ⟨.inr missing, rfl⟩
  | @scored full scores somebody whole each =>
    refine .inr ⟨full, scores, whole, somebody, rfl, each.imp ?_⟩
    rintro pair score ⟨value, difference, rfl⟩
    rw [Loss.workerScore_eq_ok difference]
    rfl

theorem get?_oneOutScores {combined : R} {oneOut paired : Table Address R}
    (scored : oneOutScores combined oneOut = .ok paired) (worker : Address) :
    paired.get? worker =
      (oneOut.get? worker).map fun heldOut => Scalar.log10 heldOut - Scalar.log10 combined := by
  obtain ⟨pairs, each, packed⟩ := Fault.bind_eq_ok_iff.mp scored
  cases packed
  have related : List.Forall₂ (fun entry pair => pair.1 = entry.1 ∧
      pair.2 = Scalar.log10 entry.2 - Scalar.log10 combined) oneOut.entries pairs := by
    refine (Fault.mapM_eq_ok_iff.mp each).imp fun entry pair made => ?_
    obtain ⟨_, difference, packed⟩ := Fault.bind_eq_ok_iff.mp made
    cases packed
    exact ⟨rfl, Loss.workerScore_eq_ok difference⟩
  have keys : pairs.map Prod.fst = oneOut.keys :=
    map_eq_map_of_forall₂ (related.imp fun _ _ both => both.1)
  have listed : (Table.ofList pairs).entries = pairs := Table.entries_ofList (keys ▸ oneOut.distinct)
  cases known : oneOut.get? worker with
  | none =>
    rw [Table.get?_eq_none_iff] at known
    exact Table.get?_eq_none_iff.mpr (by rwa [Table.keys, listed, keys])
  | some heldOut =>
    obtain ⟨⟨other, score⟩, inside, named, valued⟩ :=
      exists_right_of_forall₂ related (Table.mem_entries_of_get? known)
    dsimp only at named valued
    rw [named, valued] at inside
    exact Table.get?_of_mem_entries (listed.symm ▸ inside)

theorem mem_keys_oneOutScores {combined : R} {oneOut paired : Table Address R}
    (scored : oneOutScores combined oneOut = .ok paired) (worker : Address) :
    worker ∈ paired.keys ↔ worker ∈ oneOut.keys := by
  rw [← not_iff_not, ← Table.get?_eq_none_iff, ← Table.get?_eq_none_iff, get?_oneOutScores scored,
    Option.map_eq_none_iff]

theorem exists_oneOutScores {combined : R} {oneOut : Table Address R} (full : Scalar.IsLoss combined)
    (proper : ∀ pair ∈ oneOut.entries, Scalar.IsLoss pair.2) :
    ∃ paired, oneOutScores combined oneOut = .ok paired := by
  have each : ∀ pair ∈ oneOut.entries, ∃ scored, (do
      return (pair.1, ← Loss.workerScore combined pair.2)) = (.ok scored : Except (Fault R) _) :=
    fun pair inside =>
      Fault.exists_bind_eq_ok (Loss.workerScore_of_isLoss full (proper pair inside)) ⟨_, rfl⟩
  obtain ⟨pairs, found⟩ := Fault.exists_mapM_eq_ok each
  exact Fault.exists_bind_eq_ok found ⟨_, rfl⟩

theorem exists_forecasterScore {paired : Table Address R} {naive factor loss : R} {worker : Address}
    (plain : Scalar.IsLoss naive) (own : Scalar.IsLoss loss) (share : 0 ≤ factor ∧ factor ≤ 1)
    (known : strict = true → worker ∈ paired.keys) (topic block : Int) :
    ∃ score, forecasterScore topic block strict paired naive factor worker loss = .ok score := by
  unfold forecasterScore
  split
  next absent =>
    cases strict with
    | false => exact ⟨none, rfl⟩
    | true => exact absurd (known rfl) (Table.get?_eq_none_iff.mp absent)
  next =>
    refine Fault.exists_bind_eq_ok (Loss.workerScore_of_isLoss own plain) ?_
    exact Fault.exists_bind_eq_ok (if_pos share) ⟨_, rfl⟩

def ForecasterScore (topic block : Int) (combined naive factor : R) (oneOut : Table Address R)
    (pair : Address × R) (score : Score R) : Prop :=
  ∃ heldOut, oneOut.get? pair.1 = some heldOut ∧
    score = ⟨topic, block, pair.1.text, factor * (Scalar.log10 naive - Scalar.log10 pair.2) +
      (1 - factor) * (Scalar.log10 heldOut - Scalar.log10 combined)⟩

theorem forecasterScore_eq_ok {combined naive factor : R} {oneOut paired : Table Address R}
    (pairs : oneOutScores combined oneOut = .ok paired) {pair : Address × R}
    {score : Option (Score R)}
    (scored : forecasterScore topic block strict paired naive factor pair.1 pair.2 = .ok score) :
    if pair.1 ∈ oneOut.keys then
      ∃ made, score = some made ∧ ForecasterScore topic block combined naive factor oneOut pair made
    else score = none := by
  unfold forecasterScore at scored
  rw [get?_oneOutScores pairs] at scored
  split
  next present =>
    obtain ⟨heldOut, known⟩ := Table.exists_get?_of_mem_keys present
    rw [known] at scored
    obtain ⟨oneIn, difference, rest⟩ := Fault.bind_eq_ok_iff.mp scored
    obtain ⟨value, mixed, packed⟩ := Fault.bind_eq_ok_iff.mp rest
    cases packed
    refine ⟨_, rfl, heldOut, known, ?_⟩
    rw [Loss.forecastScore_eq_ok mixed, Loss.workerScore_eq_ok difference]
  next absent =>
    rw [Table.get?_eq_none_iff.mpr absent] at scored
    dsimp only [Option.map_none] at scored
    split at scored
    next => cases scored
    next =>
      cases scored
      rfl

inductive Forecasted (topic block : Int) (strict : Bool) (network : Bundle R)
    (oneOut oneIn : Table Address R) : Option (List (Score R)) → Prop
  | nobody (empty : oneIn.entries = []) : Forecasted topic block strict network oneOut oneIn none
  | lacking (lax : strict = false)
      (missing : network.whole .combined = none ∨ network.whole .naive = none) :
      Forecasted topic block strict network oneOut oneIn none
  | scored {combined naive factor : R} {paired : Table Address R} {tried : List (Option (Score R))}
      (somebody : oneIn.entries ≠ []) (whole : network.whole .combined = some combined)
      (plain : network.whole .naive = some naive) (pairs : oneOutScores combined oneOut = .ok paired)
      (share : Loss.uniqueness (oneOut.size : R) = .ok factor)
      (each : List.Forall₂ (fun pair score =>
        forecasterScore topic block strict paired naive factor pair.1 pair.2 = .ok score)
        oneIn.entries tried) :
      Forecasted topic block strict network oneOut oneIn (some (tried.filterMap id))

theorem forecastScores_eq_ok_iff {scores : Option (List (Score R))} :
    forecastScores policy topic block strict network = .ok scores ↔
      ∃ oneOut oneIn, network.valuesFor policy.required .oneOutForecaster = .ok oneOut ∧
        network.valuesFor policy.required .oneInForecaster = .ok oneIn ∧
        Forecasted topic block strict network oneOut oneIn scores := by
  unfold forecastScores
  rw [Fault.bind_eq_ok_iff]
  refine exists_congr fun oneOut => ?_
  rw [Fault.bind_eq_ok_iff, ← exists_and_left]
  refine exists_congr fun oneIn => and_congr_right fun _ => and_congr_right fun _ => ?_
  by_cases nobody : oneIn.entries = []
  · rw [if_pos (List.isEmpty_iff.mpr nobody)]
    constructor
    · intro same
      cases same
      exact .nobody nobody
    · intro forecasted
      cases forecasted with
      | nobody | lacking => rfl
      | scored somebody => exact absurd nobody somebody
  · rw [if_neg (mt List.isEmpty_iff.mp nobody), Fault.bind_eq_ok_iff]
    constructor
    · rintro ⟨combined?, known, rest⟩
      obtain ⟨naive?, known', rest⟩ := Fault.bind_eq_ok_iff.mp rest
      obtain ⟨whole, lax⟩ := networkLoss_eq_ok_iff.mp known
      obtain ⟨plain, lax'⟩ := networkLoss_eq_ok_iff.mp known'
      cases combined? with
      | none =>
        cases rest
        exact .lacking (lax rfl) (.inl whole)
      | some combined =>
        cases naive? with
        | none =>
          cases rest
          exact .lacking (lax' rfl) (.inr plain)
        | some naive =>
          obtain ⟨paired, pairs, rest⟩ := Fault.bind_eq_ok_iff.mp rest
          obtain ⟨factor, share, rest⟩ := Fault.bind_eq_ok_iff.mp rest
          obtain ⟨tried, each, packed⟩ := Fault.bind_eq_ok_iff.mp rest
          cases packed
          exact .scored nobody whole plain pairs share (Fault.mapM_eq_ok_iff.mp each)
    · intro forecasted
      cases forecasted with
      | nobody empty => exact absurd empty nobody
      | lacking lax missing =>
        refine ⟨_, networkLoss_eq_ok_iff.mpr ⟨rfl, fun _ => lax⟩, ?_⟩
        refine Fault.bind_eq_ok_iff.mpr ⟨_, networkLoss_eq_ok_iff.mpr ⟨rfl, fun _ => lax⟩, ?_⟩
        rcases missing with missing | missing
        · rw [missing]
          rfl
        · rw [missing]
          cases network.whole .combined <;> rfl
      | @scored combined naive factor paired tried somebody whole plain pairs share each =>
        refine ⟨some combined, networkLoss_eq_ok_iff.mpr ⟨whole, fun none => by cases none⟩, ?_⟩
        refine Fault.bind_eq_ok_iff.mpr
          ⟨some naive, networkLoss_eq_ok_iff.mpr ⟨plain, fun none => by cases none⟩, ?_⟩
        refine Fault.bind_eq_ok_iff.mpr ⟨paired, pairs, Fault.bind_eq_ok_iff.mpr ⟨factor, share, ?_⟩⟩
        exact Fault.bind_eq_ok_iff.mpr ⟨tried, Fault.mapM_eq_ok_iff.mpr each, rfl⟩

theorem forecasterScore_of_strict {strict' : Bool} {paired : Table Address R} {naive factor loss : R}
    {worker : Address} {score : Option (Score R)}
    (scored : forecasterScore topic block strict paired naive factor worker loss = .ok score)
    (allowed : strict' = false ∨ worker ∈ paired.keys) :
    forecasterScore topic block strict' paired naive factor worker loss = .ok score := by
  unfold forecasterScore at scored ⊢
  cases found : paired.get? worker with
  | some oneOutScore =>
    rw [found] at scored
    exact scored
  | none =>
    have lax : strict' = false := allowed.resolve_right (Table.get?_eq_none_iff.mp found)
    rw [found] at scored
    rw [lax]
    cases strict with
    | true => cases scored
    | false => exact scored

theorem Forecasted.of_strict {strict' : Bool} {oneOut oneIn : Table Address R}
    {scores : Option (List (Score R))}
    (forecasted : Forecasted topic block strict network oneOut oneIn scores)
    (allowed : oneIn.entries ≠ [] →
      network.whole .combined = none ∨ network.whole .naive = none → strict' = false)
    (known : ∀ pair ∈ oneIn.entries, strict' = false ∨ pair.1 ∈ oneOut.keys) :
    Forecasted topic block strict' network oneOut oneIn scores := by
  cases forecasted with
  | nobody empty => exact .nobody empty
  | lacking _ missing =>
    by_cases nobody : oneIn.entries = []
    · exact .nobody nobody
    · exact .lacking (allowed nobody missing) missing
  | scored somebody whole plain pairs share each =>
    refine .scored somebody whole plain pairs share (forall₂_imp_of_mem each ?_)
    intro pair inside score made
    apply forecasterScore_of_strict made
    exact (known pair inside).imp_right (mem_keys_oneOutScores pairs pair.1).mpr

theorem forecastScores_eq_ok {scores : Option (List (Score R))} {oneOut oneIn : Table Address R}
    (readOut : network.valuesFor policy.required .oneOutForecaster = .ok oneOut)
    (readIn : network.valuesFor policy.required .oneInForecaster = .ok oneIn)
    (scored : forecastScores policy topic block strict network = .ok scores) :
    ((oneIn.entries = [] ∨ network.whole .combined = none ∨ network.whole .naive = none) ∧
        scores = none) ∨
      ∃ combined naive factor written, network.whole .combined = some combined ∧
        network.whole .naive = some naive ∧ Loss.uniqueness (oneOut.size : R) = .ok factor ∧
        scores = some written ∧
        List.Forall₂ (ForecasterScore topic block combined naive factor oneOut)
          (oneIn.entries.filter (·.1 ∈ oneOut.keys)) written := by
  obtain ⟨_, _, readOut', readIn', forecasted⟩ := forecastScores_eq_ok_iff.mp scored
  rw [readOut] at readOut'
  rw [readIn] at readIn'
  cases readOut'
  cases readIn'
  cases forecasted with
  | nobody empty => exact .inl ⟨.inl empty, rfl⟩
  | lacking _ missing => exact .inl ⟨.inr missing, rfl⟩
  | scored _ whole plain pairs share each =>
    refine .inr ⟨_, _, _, _, whole, plain, share, rfl, ?_⟩
    exact forall₂_filterMap_id (each.imp fun _ _ made => forecasterScore_eq_ok pairs made)

theorem placed_of_inferenceScores {scores : Option (List (Score R))}
    (scored : inferenceScores policy topic block strict network = .ok scores) :
    ∀ written ∈ scores, ∀ s ∈ written, s.topic = topic ∧ s.block = block := by
  obtain ⟨_, read, _⟩ := Fault.bind_eq_ok_iff.mp scored
  rcases inferenceScores_eq_ok read scored with ⟨-, rfl⟩ | ⟨_, _, -, -, rfl, each⟩
  · simp
  · rintro _ ⟨⟩ s inside
    obtain ⟨_, -, rfl⟩ := exists_left_of_forall₂ each inside
    exact ⟨rfl, rfl⟩

theorem placed_of_forecastScores {scores : Option (List (Score R))}
    (scored : forecastScores policy topic block strict network = .ok scores) :
    ∀ written ∈ scores, ∀ s ∈ written, s.topic = topic ∧ s.block = block := by
  obtain ⟨_, readOut, rest⟩ := Fault.bind_eq_ok_iff.mp scored
  obtain ⟨_, readIn, _⟩ := Fault.bind_eq_ok_iff.mp rest
  rcases forecastScores_eq_ok readOut readIn scored with
    ⟨-, rfl⟩ | ⟨_, _, _, _, -, -, -, rfl, each⟩
  · simp
  · rintro _ ⟨⟩ s inside
    obtain ⟨_, -, _, -, rfl⟩ := exists_left_of_forall₂ each inside
    exact ⟨rfl, rfl⟩

end Parts

end Round
end RoundScoring
