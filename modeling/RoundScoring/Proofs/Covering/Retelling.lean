import RoundScoring.Proofs.Covering.Definition

/-!
Bundles that tell the same in other words. The texts of workers may be spelled in another way, the
entries of a collection may stand in another order, and there may be more of them for workers off the
roster (`Retold`). None of this is seen once the texts are read: the workers that entries name stay
distinct, and what is reported of the roster stays the same. So the coverage does too
(`Coverage.filter_of_retold`).
-/

namespace RoundScoring

variable {R : Type} {required : Option String} {roster : OrderedSet Address}

/-- A text itself, or another one that denotes the same account. -/
def Address.Respells (required : Option String) (text other : String) : Prop :=
  other = text ∨ ∃ account, parse required text = .ok account ∧ parse required other = .ok account

theorem Address.Respells.parse_eq {text other : String} (respells : Respells required text other) :
    parse required other = parse required text := by
  rcases respells with rfl | ⟨account, parsed, again⟩
  · rfl
  · rw [parsed, again]

theorem forall₂_readAs_of_respells {entries others : List (WorkerLoss R)} {pairs : List (Address × R)}
    (read : List.Forall₂ (ReadAs required) entries pairs)
    (respelt : List.Forall₂ (fun entry again =>
      Address.Respells required entry.worker again.worker ∧ again.loss = entry.loss) entries others) :
    List.Forall₂ (ReadAs required) others pairs := by
  refine (forall₂_of_common read respelt ?_).flip
  intro entry pair again reads spelt
  exact ⟨spelt.1.parse_eq.trans reads.1, reads.2.trans spelt.2.symm⟩

/-- The entries of a collection told in another way. What is told of workers off the roster may be
any loss at all. -/
inductive Retold (required : Option String) (roster : OrderedSet Address) :
    List (WorkerLoss R) → List (WorkerLoss R) → Prop
  | respelt {before after : List (WorkerLoss R)} {entry : WorkerLoss R} {text : String}
      (respells : Address.Respells required entry.worker text) :
      Retold required roster (before ++ entry :: after)
        (before ++ { entry with worker := text } :: after)
  | permuted {entries others : List (WorkerLoss R)} (permutes : entries.Perm others) :
      Retold required roster entries others
  | added {entries : List (WorkerLoss R)} {entry : WorkerLoss R} {worker : Address}
      (parsed : Address.parse required entry.worker = .ok worker) (unlisted : worker ∉ roster)
      (fresh : ∀ other ∈ entries, Address.parse required other.worker ≠ .ok worker) :
      Retold required roster entries (entry :: entries)
  | trans {first between last : List (WorkerLoss R)} (left : Retold required roster first between)
      (right : Retold required roster between last) : Retold required roster first last

structure Bundle.Retold (required : Option String) (roster : OrderedSet Address)
    (bundle other : Bundle R) : Prop where
  topic : other.topic = bundle.topic
  whole : ∀ category, other.whole category = bundle.whole category
  entries : ∀ category,
    RoundScoring.Retold required roster (bundle.entries category) (other.entries category)

def readings (required : Option String) (entries : List (WorkerLoss R)) :
    List (Except Address.Problem Address) :=
  entries.map fun entry => Address.parse required entry.worker

theorem readings_of_respells {before after : List (WorkerLoss R)} {entry : WorkerLoss R}
    {text : String} (respells : Address.Respells required entry.worker text) :
    readings required (before ++ { entry with worker := text } :: after) =
      readings required (before ++ entry :: after) := by
  unfold readings
  rw [List.map_append, List.map_append, List.map_cons, List.map_cons, respells.parse_eq]

theorem unoffending_iff {category : WorkerCategory} {entries : List (WorkerLoss R)} :
    Unoffending required category entries ↔
      (readings required entries).Nodup ∧
        ∀ reading ∈ readings required entries, ∃ worker, reading = .ok worker := by
  constructor
  · intro clean
    obtain ⟨values, read⟩ := Bundle.exists_foldlM_enter_iff.mpr clean
    obtain ⟨pairs, grows, each⟩ := Bundle.foldlM_enter_eq_ok_iff.mp read
    rw [Table.entries_empty, List.nil_append] at grows
    subst grows
    have same : values.keys.map .ok = readings required entries := by
      rw [Table.keys, List.map_map]
      exact map_eq_map_of_forall₂ (each.imp fun _ _ found => found.1.symm)
    rw [← same]
    refine ⟨values.distinct.map fun _ _ => Except.ok.inj, fun reading inside => ?_⟩
    obtain ⟨worker, -, rfl⟩ := List.mem_map.mp inside
    exact ⟨worker, rfl⟩
  · rintro ⟨distinct, accounts⟩ before entry after rfl fault offends
    rw [readings, List.map_append, List.map_cons] at distinct accounts
    cases offends with
    | unreadable refused =>
      obtain ⟨worker, parsed⟩ := accounts _ (List.mem_append_right _ List.mem_cons_self)
      cases refused.symm.trans parsed
    | repeated parsed listed same =>
      refine (List.nodup_append.mp distinct).2.2 _ (List.mem_map_of_mem listed) _
        List.mem_cons_self ?_
      rw [same, parsed]

namespace Retold

variable {entries others : List (WorkerLoss R)}

theorem unoffending (retold : Retold required roster entries others) {category : WorkerCategory}
    (clean : Unoffending required category entries) : Unoffending required category others := by
  -- A spelling is read as the one before, an order has the same members, and a new worker is none of
  -- those before.
  induction retold with
  | respelt respells =>
    rw [unoffending_iff] at clean ⊢
    rwa [readings_of_respells respells]
  | permuted permutes =>
    rw [unoffending_iff] at clean ⊢
    have readPermutes := permutes.map fun entry => Address.parse required entry.worker
    exact ⟨readPermutes.nodup_iff.mp clean.1,
      fun reading inside => clean.2 reading (readPermutes.mem_iff.mpr inside)⟩
  | added parsed _ fresh =>
    rw [unoffending_iff] at clean ⊢
    rw [readings, List.map_cons, List.nodup_cons, List.forall_mem_cons, parsed]
    refine ⟨⟨fun inside => ?_, clean.1⟩, ⟨_, rfl⟩, clean.2⟩
    obtain ⟨other, listed, same⟩ := List.mem_map.mp inside
    exact fresh other listed same
  | trans _ _ first second => exact second (first clean)

theorem reports_iff (retold : Retold required roster entries others) {worker : Address} {loss : R}
    (listed : worker ∈ roster) :
    (∃ entry ∈ others, Address.parse required entry.worker = .ok worker ∧ entry.loss = loss) ↔
      ∃ entry ∈ entries, Address.parse required entry.worker = .ok worker ∧ entry.loss = loss := by
  induction retold with
  | respelt respells => simp [or_and_right, exists_or, respells.parse_eq]
  | permuted permutes => simp only [permutes.mem_iff]
  | added parsed unlisted _ =>
    simp only [List.mem_cons, or_and_right, exists_or, exists_eq_left]
    refine or_iff_right fun own => unlisted ?_
    cases parsed.symm.trans own.1
    exact listed
  | trans _ _ first second => exact second.trans first

end Retold

namespace Bundle.Retold

variable {bundle other : Bundle R}

theorem sound (retold : bundle.Retold required roster other) (sound : bundle.Sound required) :
    other.Sound required :=
  fun category => (retold.entries category).unoffending (sound category)

theorem reportsOf_iff (retold : bundle.Retold required roster other) {category : WorkerCategory}
    {worker : Address} {loss : R} (listed : worker ∈ roster) :
    other.ReportsOf required category worker loss ↔ bundle.ReportsOf required category worker loss :=
  (retold.entries category).reports_iff listed

theorem reportsUnder_iff (retold : bundle.Retold required roster other) {key : LossKey} {loss : R} :
    other.ReportsUnder required roster key loss ↔ bundle.ReportsUnder required roster key loss := by
  constructor
  · rintro (present | ⟨listed, reported⟩)
    · exact .whole (retold.whole _ ▸ present)
    · exact .perWorker listed ((retold.reportsOf_iff listed).mp reported)
  · rintro (present | ⟨listed, reported⟩)
    · exact .whole (retold.whole _ ▸ present)
    · exact .perWorker listed ((retold.reportsOf_iff listed).mpr reported)

end Bundle.Retold

namespace Coverage

variable [Scalar R] {reputer : Address} {bundle other : Bundle R} {coverage : Coverage R}

theorem Covers.retold (covers : Covers required roster reputer bundle coverage)
    (retold : bundle.Retold required roster other) :
    Covers required roster reputer other coverage where
  reputer := covers.reputer
  partition := covers.partition
  whole category := by rw [covers.whole, retold.whole]
  perWorker category := by
    rw [covers.perWorker]
    refine and_congr_right fun _ => forall₂_congr fun worker listed => ?_
    simp only [retold.reportsOf_iff listed]
  losses key loss := by rw [covers.losses, retold.reportsUnder_iff]
  ascending := covers.ascending
  filled := covers.filled

theorem filter_of_retold (filtered : filter required roster reputer bundle = .ok coverage)
    (retold : bundle.Retold required roster other) :
    filter required roster reputer other = .ok coverage := by
  obtain ⟨found, again⟩ := exists_filter_iff.mpr (retold.sound (exists_filter_iff.mp ⟨_, filtered⟩))
  rw [again, (covers_of_filter again).unique ((covers_of_filter filtered).retold retold)]

end Coverage
end RoundScoring
