import RoundScoring.Proofs.Covering

/-!
Which entries cannot be read. An entry offends when its worker is no account, or one that an entry
before it in its collection has. A bundle is read when no entry offends, and the fault is otherwise
that of the first one that does, a collection after the other (`Coverage.filter_eq_error_iff`).
-/

namespace RoundScoring

variable {R : Type}

/-- What is wrong with an entry that comes after some others in its collection. -/
inductive Offends (required : Option String) (category : WorkerCategory)
    (before : List (WorkerLoss R)) (entry : WorkerLoss R) : Fault R → Prop
  | unreadable {problem : Address.Problem}
      (refused : Address.parse required entry.worker = .error problem) :
      Offends required category before entry (.identity problem)
  | repeated {worker : Address} {earlier : WorkerLoss R}
      (parsed : Address.parse required entry.worker = .ok worker) (listed : earlier ∈ before)
      (same : Address.parse required earlier.worker = .ok worker) :
      Offends required category before entry (.workerTwice entry.worker category)

def Unoffending (required : Option String) (category : WorkerCategory)
    (entries : List (WorkerLoss R)) : Prop :=
  ∀ before entry after, entries = before ++ entry :: after →
    ∀ fault, ¬Offends required category before entry fault

namespace Bundle

def Sound (required : Option String) (bundle : Bundle R) : Prop :=
  ∀ category, Unoffending required category (bundle.entries category)

/-- What is wrong with the first entry that offends: none does in the collections before its own, nor
before it there. -/
def FirstOffence (required : Option String) (bundle : Bundle R) (fault : Fault R) : Prop :=
  ∃ collections category later, Category.perWorkers = collections ++ category :: later ∧
    (∀ other ∈ collections, Unoffending required other (bundle.entries other)) ∧
    ∃ before entry after, bundle.entries category = before ++ entry :: after ∧
      Unoffending required category before ∧ Offends required category before entry fault

theorem enter_eq_error_iff {required : Option String} {category : WorkerCategory}
    {before : List (WorkerLoss R)} {seen : Table Address R} {entry : WorkerLoss R} {fault : Fault R}
    (read : before.foldlM (enter required category) Table.empty = .ok seen) :
    enter required category seen entry = .error fault ↔
      Offends required category before entry fault := by
  obtain ⟨pairs, grows, each⟩ := foldlM_enter_eq_ok_iff.mp read
  rw [Table.entries_empty, List.nil_append] at grows
  subst grows
  unfold enter
  constructor
  · intro refused
    split at refused
    next problem unparsed =>
      cases refused
      exact .unreadable unparsed
    next worker parsed =>
      split at refused
      next inside =>
        cases refused
        obtain ⟨pair, member, rfl⟩ := List.mem_map.mp inside
        obtain ⟨earlier, listed, same, -⟩ := exists_left_of_forall₂ each member
        exact .repeated parsed listed same
      next => cases refused
  · rintro (unparsed | ⟨parsed, listed, same⟩)
    · rw [unparsed]
    · obtain ⟨pair, member, found, -⟩ := exists_right_of_forall₂ each listed
      cases same.symm.trans found
      rw [parsed]
      exact if_pos (List.mem_map_of_mem member)

theorem exists_foldlM_enter_iff {required : Option String} {category : WorkerCategory}
    {entries : List (WorkerLoss R)} :
    (∃ values, entries.foldlM (enter required category) Table.empty = .ok values) ↔
      Unoffending required category entries := by
  constructor
  · rintro ⟨values, read⟩ before entry after rfl fault offends
    rw [List.foldlM_append] at read
    obtain ⟨seen, came, rest⟩ := Fault.bind_eq_ok_iff.mp read
    rw [List.foldlM_cons, (enter_eq_error_iff came).mpr offends] at rest
    cases rest
  · intro clean
    cases read : entries.foldlM (enter required category) Table.empty with
    | ok values => exact ⟨values, rfl⟩
    | error fault =>
      obtain ⟨before, entry, after, seen, split, came, refused⟩ :=
        Fault.foldlM_eq_error_iff.mp read
      exact (clean before entry after split fault ((enter_eq_error_iff came).mp refused)).elim

theorem exists_valuesFor_iff {required : Option String} {bundle : Bundle R}
    {category : WorkerCategory} :
    (∃ values, bundle.valuesFor required category = .ok values) ↔
      Unoffending required category (bundle.entries category) :=
  exists_foldlM_enter_iff

theorem valuesFor_eq_error_iff {required : Option String} {bundle : Bundle R}
    {category : WorkerCategory} {fault : Fault R} :
    bundle.valuesFor required category = .error fault ↔
      ∃ before entry after, bundle.entries category = before ++ entry :: after ∧
        Unoffending required category before ∧ Offends required category before entry fault := by
  unfold valuesFor
  rw [Fault.foldlM_eq_error_iff]
  constructor
  · rintro ⟨before, entry, after, seen, split, came, refused⟩
    exact ⟨before, entry, after, split, exists_foldlM_enter_iff.mp ⟨seen, came⟩,
      (enter_eq_error_iff came).mp refused⟩
  · rintro ⟨before, entry, after, split, clean, offends⟩
    obtain ⟨seen, came⟩ := exists_foldlM_enter_iff.mpr clean
    exact ⟨before, entry, after, seen, split, came, (enter_eq_error_iff came).mpr offends⟩

end Bundle

namespace Coverage

variable [Scalar R] {required : Option String} {roster : OrderedSet Address} {reputer : Address}
  {bundle : Bundle R}

theorem exists_filter_iff :
    (∃ coverage, filter required roster reputer bundle = .ok coverage) ↔ bundle.Sound required := by
  constructor
  · rintro ⟨coverage, filtered⟩ category
    obtain ⟨values, read, -⟩ := filter_eq_ok_iff.mp filtered
    exact Bundle.exists_valuesFor_iff.mp ⟨values category, read category⟩
  · intro sound
    choose values read using fun category => Bundle.exists_valuesFor_iff.mpr (sound category)
    exact ⟨_, filter_eq_ok_iff.mpr ⟨values, read, rfl⟩⟩

theorem filter_eq_error_iff {fault : Fault R} :
    filter required roster reputer bundle = .error fault ↔ bundle.FirstOffence required fault := by
  unfold filter
  rw [Fault.bind_eq_error_iff, Fault.mapM_eq_error_iff]
  constructor
  · rintro (⟨collections, category, later, split, came, failed⟩ | ⟨_, _, packed⟩)
    · rcases Fault.bind_eq_error_iff.mp failed with refused | ⟨_, _, packed⟩
      · refine ⟨collections, category, later, split, fun other inside => ?_,
          Bundle.valuesFor_eq_error_iff.mp refused⟩
        obtain ⟨_, found⟩ := came other inside
        obtain ⟨values, read, -⟩ := Fault.bind_eq_ok_iff.mp found
        exact Bundle.exists_valuesFor_iff.mp ⟨values, read⟩
      · cases packed
    · cases packed
  · rintro ⟨collections, category, later, split, clean, first⟩
    refine .inl ⟨collections, category, later, split, fun other inside => ?_,
      Fault.bind_eq_error_iff.mpr (.inl (Bundle.valuesFor_eq_error_iff.mpr first))⟩
    obtain ⟨values, read⟩ := Bundle.exists_valuesFor_iff.mpr (clean other inside)
    exact ⟨(other, values), Fault.bind_eq_ok_iff.mpr ⟨values, read, rfl⟩⟩

end Coverage
end RoundScoring
