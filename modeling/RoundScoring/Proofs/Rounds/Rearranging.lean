import RoundScoring.Proofs.Covering.Retelling
import RoundScoring.Proofs.Rounds.Working

/-!
Networks that list the losses of workers in another order. A collection that is rearranged is read as
the same losses, in the order in which they stand now (`Bundle.Rearranged.exists_valuesFor`). The losses
without a forecaster are looked up by account, and so nothing depends on their order. The collections
that are gone through give the same scores in the new order, and a keeper that takes scores in one
order takes them in any other.
-/

namespace RoundScoring

open Keeper

variable {R : Type} {required : Option String} {category : WorkerCategory} {network other : Bundle R}

/-- One collection of a network in another order, and with its texts spelled in another way. -/
structure Bundle.Rearranged (required : Option String) (category : WorkerCategory)
    (network other : Bundle R) : Prop where
  whole : ∀ kind, other.whole kind = network.whole kind
  others : ∀ kind, kind ≠ category → other.entries kind = network.entries kind
  entries : ∃ between, (network.entries category).Perm between ∧ List.Forall₂
    (fun entry again => Address.Respells required entry.worker again.worker ∧ again.loss = entry.loss)
    between (other.entries category)

theorem Bundle.Rearranged.valuesFor_of_ne (rearranged : network.Rearranged required category other)
    {kind : WorkerCategory} (ne : kind ≠ category) (required' : Option String) :
    other.valuesFor required' kind = network.valuesFor required' kind := by
  unfold Bundle.valuesFor
  rw [rearranged.others kind ne]

theorem Bundle.Rearranged.exists_valuesFor (rearranged : network.Rearranged required category other)
    {values : Table Address R} (read : network.valuesFor required category = .ok values) :
    ∃ values', other.valuesFor required category = .ok values' ∧
      values.entries.Perm values'.entries := by
  obtain ⟨between, permuted, respelt⟩ := rearranged.entries
  obtain ⟨pairs, each, same⟩ :=
    List.perm_comp_forall₂ permuted.symm (Bundle.valuesFor_eq_ok_iff.mp read)
  have distinct : (pairs.map Prod.fst).Nodup := (same.map Prod.fst).nodup_iff.mpr values.distinct
  have read' := forall₂_readAs_of_respells each respelt
  exact ⟨⟨pairs, distinct⟩, Bundle.valuesFor_eq_ok_iff.mpr read', same.symm⟩

namespace Round

variable [Scalar R] {policy : Policy R} {topic block : Int} {strict : Bool}
  {oneOut oneOut' oneIn oneIn' : Table Address R} {scores : Option (List (Score R))}

theorem Inferred.exists_of_perm (inferred : Inferred topic block strict network oneOut scores)
    (whole : ∀ kind, other.whole kind = network.whole kind)
    (same : oneOut.entries.Perm oneOut'.entries) :
    ∃ scores', Inferred topic block strict other oneOut' scores' ∧
      Option.Rel List.Perm scores scores' := by
  cases inferred with
  | nobody empty =>
    rw [empty] at same
    exact ⟨none, .nobody same.nil_eq.symm, .none⟩
  | lacking lax missing => exact ⟨none, .lacking lax ((whole _).trans missing), .none⟩
  | scored somebody known each =>
    obtain ⟨written, each', permuted⟩ := List.perm_comp_forall₂ same.symm each
    have still : oneOut'.entries ≠ [] := by
      intro nobody
      rw [nobody] at same
      exact somebody same.eq_nil
    exact ⟨some written, .scored still ((whole _).trans known) each', .some permuted.symm⟩

theorem exists_oneOutScores_of_perm {combined : R} {paired : Table Address R}
    (scored : oneOutScores combined oneOut = .ok paired)
    (same : oneOut.entries.Perm oneOut'.entries) :
    ∃ paired', oneOutScores combined oneOut' = .ok paired' ∧
      ∀ worker, paired'.get? worker = paired.get? worker := by
  obtain ⟨pairs, each, -⟩ := Fault.bind_eq_ok_iff.mp scored
  obtain ⟨pairs', each', -⟩ := List.perm_comp_forall₂ same.symm (Fault.mapM_eq_ok_iff.mp each)
  have scored' : oneOutScores combined oneOut' = .ok (.ofList pairs') :=
    Fault.bind_eq_ok_iff.mpr ⟨pairs', Fault.mapM_eq_ok_iff.mpr each', rfl⟩
  refine ⟨_, scored', fun worker => ?_⟩
  rw [get?_oneOutScores scored', get?_oneOutScores scored, Table.get?_of_perm same]

theorem Forecasted.of_oneOut_perm
    (forecasted : Forecasted topic block strict network oneOut oneIn scores)
    (whole : ∀ kind, other.whole kind = network.whole kind)
    (same : oneOut.entries.Perm oneOut'.entries) :
    Forecasted topic block strict other oneOut' oneIn scores := by
  cases forecasted with
  | nobody empty => exact .nobody empty
  | lacking lax missing =>
    rw [← whole, ← whole] at missing
    exact .lacking lax missing
  | scored somebody known plain pairs share each =>
    obtain ⟨paired', pairs', alike⟩ := exists_oneOutScores_of_perm pairs same
    have size : oneOut'.size = oneOut.size := same.length_eq.symm
    refine .scored somebody ((whole _).trans known) ((whole _).trans plain) pairs' (size ▸ share) ?_
    refine each.imp fun pair score made => ?_
    unfold forecasterScore
    rw [alike]
    exact made

theorem Forecasted.exists_of_oneIn_perm
    (forecasted : Forecasted topic block strict network oneOut oneIn scores)
    (whole : ∀ kind, other.whole kind = network.whole kind)
    (same : oneIn.entries.Perm oneIn'.entries) :
    ∃ scores', Forecasted topic block strict other oneOut oneIn' scores' ∧
      Option.Rel List.Perm scores scores' := by
  cases forecasted with
  | nobody empty =>
    rw [empty] at same
    exact ⟨none, .nobody same.nil_eq.symm, .none⟩
  | lacking lax missing =>
    rw [← whole, ← whole] at missing
    exact ⟨none, .lacking lax missing, .none⟩
  | scored somebody known plain pairs share each =>
    obtain ⟨tried', each', permuted⟩ := List.perm_comp_forall₂ same.symm each
    have still : oneIn'.entries ≠ [] := by
      intro nobody
      rw [nobody] at same
      exact somebody same.eq_nil
    exact ⟨_, .scored still ((whole _).trans known) ((whole _).trans plain) pairs share each',
      .some (permuted.symm.filterMap id)⟩

theorem exists_inferenceScores_of_rearranged
    (rearranged : network.Rearranged policy.required .oneOutInferer other)
    (scored : inferenceScores policy topic block strict network = .ok scores) :
    ∃ scores', inferenceScores policy topic block strict other = .ok scores' ∧
      Option.Rel List.Perm scores scores' := by
  obtain ⟨oneOut, read, inferred⟩ := inferenceScores_eq_ok_iff.mp scored
  obtain ⟨oneOut', read', same⟩ := rearranged.exists_valuesFor read
  obtain ⟨scores', inferred', permuted⟩ := inferred.exists_of_perm rearranged.whole same
  exact ⟨scores', inferenceScores_eq_ok_iff.mpr ⟨oneOut', read', inferred'⟩, permuted⟩

theorem forecastScores_of_oneOut_rearranged
    (rearranged : network.Rearranged policy.required .oneOutForecaster other)
    (scored : forecastScores policy topic block strict network = .ok scores) :
    forecastScores policy topic block strict other = .ok scores := by
  obtain ⟨oneOut, oneIn, readOut, readIn, forecasted⟩ := forecastScores_eq_ok_iff.mp scored
  obtain ⟨oneOut', readOut', same⟩ := rearranged.exists_valuesFor readOut
  have readIn' := (rearranged.valuesFor_of_ne (by decide) _).trans readIn
  exact forecastScores_eq_ok_iff.mpr
    ⟨oneOut', oneIn, readOut', readIn', forecasted.of_oneOut_perm rearranged.whole same⟩

theorem exists_forecastScores_of_oneIn_rearranged
    (rearranged : network.Rearranged policy.required .oneInForecaster other)
    (scored : forecastScores policy topic block strict network = .ok scores) :
    ∃ scores', forecastScores policy topic block strict other = .ok scores' ∧
      Option.Rel List.Perm scores scores' := by
  obtain ⟨oneOut, oneIn, readOut, readIn, forecasted⟩ := forecastScores_eq_ok_iff.mp scored
  obtain ⟨oneIn', readIn', same⟩ := rearranged.exists_valuesFor readIn
  have readOut' := (rearranged.valuesFor_of_ne (by decide) _).trans readOut
  obtain ⟨scores', forecasted', permuted⟩ := forecasted.exists_of_oneIn_perm rearranged.whole same
  exact ⟨scores', forecastScores_eq_ok_iff.mpr ⟨oneOut, oneIn', readOut', readIn', forecasted'⟩,
    permuted⟩

theorem exists_run_record_of_perm {kind : ScoreKind} {keeper after : Keeper R}
    {scores scores' : Option (List (Score R))} {returned : List (Score R)}
    (permuted : Option.Rel List.Perm scores scores')
    (ran : keeper.run (record kind topic block scores) = (.ok returned, after)) :
    ∃ returned' after', keeper.run (record kind topic block scores') = (.ok returned', after') ∧
      returned.Perm returned' := by
  cases permuted with
  | none =>
    cases ran
    exact ⟨[], keeper, rfl, .nil⟩
  | @some written written' same =>
    obtain ⟨_, _, writes, packed⟩ := run_bind_eq_ok_iff.mp ran
    cases packed
    obtain ⟨opened, opens, inserts⟩ := run_transaction_eq_ok_iff.mp writes
    obtain ⟨spares, free, distinct⟩ := exists_run_forM_insertScore_iff.mp ⟨_, inserts⟩
    obtain ⟨after', inserts'⟩ := exists_run_forM_insertScore_iff.mpr
      ⟨same.length_eq ▸ spares, fun s inside => free s (same.mem_iff.mpr inside),
        (same.map _).nodup_iff.mp distinct⟩
    have writes' := run_transaction_eq_ok_iff.mpr ⟨opened, opens, inserts'⟩
    exact ⟨written', after', run_bind_eq_ok_iff.mpr ⟨_, _, writes', rfl⟩, same⟩

end Round
end RoundScoring
