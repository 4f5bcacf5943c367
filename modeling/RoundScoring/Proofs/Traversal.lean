import Mathlib.Data.List.Forall2
import Mathlib.Data.List.Perm.Basic
import RoundScoring.Proofs.Keeping

/-!
Lists taken through a step that may fail. All of them come through when each does, and then the
results stand side by side with what they came from; else the first that fails decides.
-/

namespace RoundScoring

theorem exists_left_of_forall₂ {α β : Type} {related : α → β → Prop} {as : List α} {bs : List β}
    (each : List.Forall₂ related as bs) {b : β} (inside : b ∈ bs) : ∃ a ∈ as, related a b := by
  induction each with
  | nil => cases inside
  | cons head _ ih =>
    rcases List.mem_cons.mp inside with rfl | later
    · exact ⟨_, List.mem_cons_self, head⟩
    · obtain ⟨a, member, found⟩ := ih later
      exact ⟨a, List.mem_cons_of_mem _ member, found⟩

theorem exists_right_of_forall₂ {α β : Type} {related : α → β → Prop} {as : List α} {bs : List β}
    (each : List.Forall₂ related as bs) {a : α} (inside : a ∈ as) : ∃ b ∈ bs, related a b :=
  exists_left_of_forall₂ each.flip inside

theorem forall₂_imp_of_mem {α β : Type} {related wanted : α → β → Prop} {as : List α} {bs : List β}
    (each : List.Forall₂ related as bs) (step : ∀ a ∈ as, ∀ b, related a b → wanted a b) :
    List.Forall₂ wanted as bs := by
  induction each with
  | nil => exact .nil
  | cons head _ ih =>
    exact .cons (step _ List.mem_cons_self _ head)
      (ih fun a inside => step a (List.mem_cons_of_mem _ inside))

theorem forall₂_of_common {α β γ : Type} {left : α → β → Prop} {right : α → γ → Prop}
    {wanted : β → γ → Prop} {as : List α} {bs : List β} {cs : List γ}
    (lefts : List.Forall₂ left as bs) (rights : List.Forall₂ right as cs)
    (step : ∀ a b c, left a b → right a c → wanted b c) : List.Forall₂ wanted bs cs := by
  induction lefts generalizing cs with
  | nil =>
    cases rights
    exact .nil
  | cons head _ ih =>
    cases rights with
    | cons other later => exact .cons (step _ _ _ head other) (ih later)

theorem map_eq_map_of_forall₂ {α β γ : Type} {f : α → γ} {g : β → γ} {as : List α} {bs : List β}
    (each : List.Forall₂ (fun a b => g b = f a) as bs) : bs.map g = as.map f := by
  induction each with
  | nil => rfl
  | cons head _ ih => rw [List.map_cons, List.map_cons, head, ih]

theorem forall₂_filterMap_id {α β : Type} {has : α → Prop} [DecidablePred has]
    {related : α → β → Prop} {as : List α} {bs : List (Option β)}
    (each : List.Forall₂ (fun a b => if has a then ∃ c, b = some c ∧ related a c else b = none) as bs) :
    List.Forall₂ related (as.filter has) (bs.filterMap id) := by
  induction each with
  | nil => exact .nil
  | @cons a b as bs head _ ih =>
    split at head
    next held =>
      obtain ⟨c, rfl, found⟩ := head
      rw [List.filter_cons_of_pos (by simpa using held)]
      exact .cons found ih
    next failed =>
      rw [head, List.filter_cons_of_neg (by simpa using failed)]
      exact ih

theorem Fault.mapM_eq_ok_iff {ε α β : Type} {step : α → Except ε β} {as : List α} {bs : List β} :
    as.mapM step = .ok bs ↔ List.Forall₂ (fun a b => step a = .ok b) as bs := by
  induction as generalizing bs with
  | nil =>
    rw [List.mapM_nil, List.forall₂_nil_left_iff]
    constructor
    · intro same
      cases same
      rfl
    · rintro rfl
      rfl
  | cons a as ih =>
    rw [List.mapM_cons, List.forall₂_cons_left_iff, Fault.bind_eq_ok_iff]
    constructor
    · rintro ⟨b, found, rest⟩
      obtain ⟨later, others, packed⟩ := Fault.bind_eq_ok_iff.mp rest
      cases packed
      exact ⟨b, later, found, ih.mp others, rfl⟩
    · rintro ⟨b, later, found, others, rfl⟩
      exact ⟨b, found, Fault.bind_eq_ok_iff.mpr ⟨later, ih.mpr others, rfl⟩⟩

theorem Fault.exists_bind_eq_ok {ε α β : Type} {first : Except ε α} {next : α → Except ε β} {a : α}
    (found : first = .ok a) (rest : ∃ b, next a = .ok b) : ∃ b, first >>= next = .ok b := by
  obtain ⟨b, rest⟩ := rest
  exact ⟨b, bind_eq_ok_iff.mpr ⟨a, found, rest⟩⟩

theorem Fault.exists_mapM_eq_ok {ε α β : Type} {step : α → Except ε β} {as : List α}
    (each : ∀ a ∈ as, ∃ b, step a = .ok b) : ∃ bs, as.mapM step = .ok bs := by
  induction as with
  | nil => exact ⟨[], rfl⟩
  | cons a as ih =>
    obtain ⟨b, found⟩ := each a List.mem_cons_self
    obtain ⟨bs, others⟩ := ih fun a inside => each a (List.mem_cons_of_mem _ inside)
    exact ⟨b :: bs, mapM_eq_ok_iff.mpr (.cons found (mapM_eq_ok_iff.mp others))⟩

theorem Fault.bind_eq_error_iff {ε α β : Type} {first : Except ε α} {next : α → Except ε β}
    {fault : ε} :
    first >>= next = .error fault ↔
      first = .error fault ∨ ∃ a, first = .ok a ∧ next a = .error fault := by
  cases first with
  | error => simp [bind, Except.bind]
  | ok a => simp [bind, Except.bind]

theorem Fault.foldlM_eq_error_iff {ε α β : Type} {step : β → α → Except ε β} {as : List α}
    {start : β} {fault : ε} :
    as.foldlM step start = .error fault ↔
      ∃ before a after reached, as = before ++ a :: after ∧
        before.foldlM step start = .ok reached ∧ step reached a = .error fault := by
  induction as generalizing start with
  | nil => simp [pure, Except.pure]
  | cons head as ih =>
    rw [List.foldlM_cons, bind_eq_error_iff]
    constructor
    · rintro (failed | ⟨between, stepped, failed⟩)
      · exact ⟨[], head, as, start, rfl, rfl, failed⟩
      · obtain ⟨before, a, after, reached, rfl, came, failed⟩ := ih.mp failed
        exact ⟨head :: before, a, after, reached, rfl,
          bind_eq_ok_iff.mpr ⟨between, stepped, came⟩, failed⟩
    · rintro ⟨before, a, after, reached, split, came, failed⟩
      cases before with
      | nil =>
        cases split
        cases came
        exact .inl failed
      | cons =>
        cases split
        obtain ⟨between, stepped, came⟩ := bind_eq_ok_iff.mp came
        exact .inr ⟨between, stepped, ih.mpr ⟨_, a, after, reached, rfl, came, failed⟩⟩

theorem Fault.mapM_eq_error_iff {ε α β : Type} {step : α → Except ε β} {as : List α} {fault : ε} :
    as.mapM step = .error fault ↔
      ∃ before a after, as = before ++ a :: after ∧ (∀ b ∈ before, ∃ c, step b = .ok c) ∧
        step a = .error fault := by
  induction as with
  | nil => simp [pure, Except.pure]
  | cons head as ih =>
    rw [List.mapM_cons, bind_eq_error_iff]
    constructor
    · rintro (failed | ⟨c, stepped, rest⟩)
      · exact ⟨[], head, as, rfl, fun b inside => (List.not_mem_nil inside).elim, failed⟩
      · rcases bind_eq_error_iff.mp rest with failed | ⟨_, _, packed⟩
        · obtain ⟨before, a, after, rfl, came, failed⟩ := ih.mp failed
          exact ⟨head :: before, a, after, rfl, List.forall_mem_cons.mpr ⟨⟨c, stepped⟩, came⟩, failed⟩
        · cases packed
    · rintro ⟨before, a, after, split, came, failed⟩
      cases before with
      | nil =>
        cases split
        exact .inl failed
      | cons =>
        cases split
        obtain ⟨⟨c, stepped⟩, came⟩ := List.forall_mem_cons.mp came
        exact .inr ⟨c, stepped,
          bind_eq_error_iff.mpr (.inl (ih.mpr ⟨_, a, after, rfl, came, failed⟩))⟩

/-- Both fail with one fault, or both return and what they return is related. -/
inductive Fault.Alike {ε α β : Type} (related : α → β → Prop) : Except ε α → Except ε β → Prop
  | error (fault : ε) : Alike related (.error fault) (.error fault)
  | ok {a : α} {b : β} (both : related a b) : Alike related (.ok a) (.ok b)

theorem Fault.Alike.refl {ε α : Type} {related : α → α → Prop} (own : ∀ a, related a a)
    (outcome : Except ε α) : Alike related outcome outcome := by
  cases outcome with
  | error fault => exact .error fault
  | ok a => exact .ok (own a)

theorem Fault.Alike.bind {ε α β γ δ : Type} {related : α → β → Prop} {wanted : γ → δ → Prop}
    {first : Except ε α} {other : Except ε β} {next : α → Except ε γ} {next' : β → Except ε δ}
    (alike : Alike related first other)
    (rest : ∀ a b, first = .ok a → related a b → Alike wanted (next a) (next' b)) :
    Alike wanted (first >>= next) (other >>= next') := by
  cases alike with
  | error fault => exact .error fault
  | ok both => exact rest _ _ rfl both

theorem Fault.Alike.eq {ε α : Type} {first other : Except ε α}
    (alike : Alike (fun a b => b = a) first other) : other = first := by
  cases alike with
  | error => rfl
  | ok both => rw [both]

theorem Fault.alike_mapM_of_perm {ε α β : Type} {step : α → Except ε β} {as as' : List α} {only : ε}
    (perm : as.Perm as') (fails : ∀ fault, as.mapM step = .error fault → fault = only)
    (fails' : ∀ fault, as'.mapM step = .error fault → fault = only) :
    Alike List.Perm (as.mapM step) (as'.mapM step) := by
  have comes : ∀ {xs ys : List α} {bs : List β}, xs.Perm ys → xs.mapM step = .ok bs →
      ∃ bs', ys.mapM step = .ok bs' ∧ bs.Perm bs' := by
    intro xs ys bs same came
    obtain ⟨bs', each, moved⟩ := List.perm_comp_forall₂ same.symm (mapM_eq_ok_iff.mp came)
    exact ⟨bs', mapM_eq_ok_iff.mpr each, moved.symm⟩
  cases came : as.mapM step with
  | ok bs =>
    obtain ⟨bs', came', moved⟩ := comes perm came
    rw [came']
    exact .ok moved
  | error fault =>
    cases came' : as'.mapM step with
    | ok bs' =>
      obtain ⟨_, again, -⟩ := comes perm.symm came'
      cases came.symm.trans again
    | error fault' =>
      rw [fails fault came, fails' fault' came']
      exact .error only

theorem mapM_eq_some_iff {α β : Type} {step : α → Option β} {as : List α} {bs : List β} :
    as.mapM step = some bs ↔ List.Forall₂ (fun a b => step a = some b) as bs := by
  induction as generalizing bs with
  | nil =>
    rw [List.mapM_nil, List.forall₂_nil_left_iff]
    constructor
    · intro same
      cases same
      rfl
    · rintro rfl
      rfl
  | cons a as ih =>
    rw [List.mapM_cons, List.forall₂_cons_left_iff, Option.bind_eq_bind, Option.bind_eq_some_iff]
    constructor
    · rintro ⟨b, found, rest⟩
      obtain ⟨later, others, packed⟩ := Option.bind_eq_some_iff.mp rest
      cases packed
      exact ⟨b, later, found, ih.mp others, rfl⟩
    · rintro ⟨b, later, found, others, rfl⟩
      exact ⟨b, found, Option.bind_eq_some_iff.mpr ⟨later, ih.mpr others, rfl⟩⟩

theorem exists_mapM_eq_some_iff {α β : Type} {step : α → Option β} {as : List α} :
    (∃ bs, as.mapM step = some bs) ↔ ∀ a ∈ as, ∃ b, step a = some b := by
  constructor
  · rintro ⟨bs, came⟩ a inside
    obtain ⟨b, -, found⟩ := exists_right_of_forall₂ (mapM_eq_some_iff.mp came) inside
    exact ⟨b, found⟩
  · intro each
    induction as with
    | nil => exact ⟨[], rfl⟩
    | cons a as ih =>
      obtain ⟨⟨b, found⟩, later⟩ := List.forall_mem_cons.mp each
      obtain ⟨bs, others⟩ := ih later
      exact ⟨b :: bs, mapM_eq_some_iff.mpr (.cons found (mapM_eq_some_iff.mp others))⟩

theorem Keeper.run_mapM_eq_ok {R α β : Type} [Scalar R] {step : α → Keeping R β} {as : List α}
    {bs : List β} {keeper after : Keeper R} (kept : ∀ a, KeepsLedger (step a))
    (ran : keeper.run (as.mapM step) = (.ok bs, after)) :
    List.Forall₂ (fun a b => ∃ asked left : Keeper R,
      asked.ledger = keeper.ledger ∧ asked.run (step a) = (.ok b, left)) as bs := by
  induction as generalizing bs keeper with
  | nil =>
    rw [List.mapM_nil] at ran
    cases ran
    exact .nil
  | cons a as ih =>
    rw [List.mapM_cons] at ran
    obtain ⟨b, between, first, rest⟩ := run_bind_eq_ok_iff.mp ran
    obtain ⟨later, _, others, packed⟩ := run_bind_eq_ok_iff.mp rest
    cases packed
    have same := (kept a).of_run first
    refine .cons ⟨keeper, between, rfl, first⟩ ((ih others).imp ?_)
    rintro a' b' ⟨asked, left, ledger, found⟩
    exact ⟨asked, left, ledger.trans same, found⟩

end RoundScoring
