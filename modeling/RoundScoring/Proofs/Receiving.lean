import Mathlib.Data.List.Forall2
import RoundScoring.Proofs.Traversal
import RoundScoring.Wire.Shown

/-!
Records that are received. Every record can be, except for a coefficient below zero or without an
order and for bytes that are no text (`exists_read_iff`); what is wrong with a value lies under the
fields of the record that it was to be (`under_of_read`). Fields are assigned to what was received
without changing it (`record_of_receive`), and a record to which nothing was assigned is shown as it
was received (`shown_of_received`).
-/

namespace RoundScoring.Wire

section Blames

variable {α β : Type} {fields : List String}

/-- All problems lie under one of these fields, or the value was no record at all. -/
def Checked.Under (fields : List String) (x : Checked α) : Prop :=
  ∀ problems, x = .error problems → ∀ p ∈ problems,
    p = ⟨.notRecord, []⟩ ∨ ∃ name ∈ fields, ∃ rest, p.place = .field name :: rest

namespace Checked.Under

theorem ok (a : α) : Under fields (.ok a) := fun _ wrong => nomatch wrong

theorem within {name : String} (known : name ∈ fields) (x : Checked α) :
    Under fields (Checked.within (.field name) x) := by
  cases x with
  | ok a => exact .ok a
  | error problems =>
    rintro _ ⟨⟩ p inside
    obtain ⟨q, -, rfl⟩ := List.mem_map.mp inside
    exact .inr ⟨name, known, q.place, rfl⟩

theorem and {f : Checked (α → β)} {x : Checked α} (left : Under fields f) (right : Under fields x) :
    Under fields (Checked.and f x) := by
  cases f with
  | ok g =>
    cases x with
    | ok a => exact .ok (g a)
    | error problems =>
      rintro _ ⟨⟩
      exact right problems rfl
  | error first =>
    cases x with
    | ok a =>
      rintro _ ⟨⟩
      exact left first rfl
    | error second =>
      rintro _ ⟨⟩ p inside
      rcases List.mem_append.mp inside with here | there
      · exact left first rfl p here
      · exact right second rfl p there

theorem map {f : α → β} {x : Checked α} (under : Under fields x) : Under fields (x.map f) := by
  cases x with
  | ok a => exact .ok (f a)
  | error problems =>
    rintro _ ⟨⟩
    exact under problems rfl

theorem required {name : String} (known : name ∈ fields) (received : Fields)
    (read : Value → Checked α) : Under fields (received.required name read) :=
  .within known _

theorem defaulted {name : String} (known : name ∈ fields) (received : Fields) (default : α)
    (read : Value → Checked α) : Under fields (received.defaulted name default read) := by
  unfold Fields.defaulted
  split
  next => exact .within known _
  next => exact .ok default

theorem record {read : Fields → Checked α} (each : ∀ received, Under fields (read received))
    (v : Value) : Under fields (readRecord read v) := by
  unfold readRecord
  split
  next => exact each _
  next =>
    rintro _ ⟨⟩ p inside
    exact .inl (List.mem_singleton.mp inside)

end Checked.Under

open Checked (Under)

theorem under_of_read (kind : RecordKind) (v : Value) : Under kind.fields (read kind v) := by
  cases kind with
  | workerLoss =>
    refine .map (.record (fun received => ?_) v)
    exact .and (.and (.ok _) (.required (by decide) _ _)) (.required (by decide) _ _)
  | bundle =>
    refine .map (.record (fun received => ?_) v)
    exact .and (.and (.and (.and (.and (.and (.ok _) (.defaulted (by decide) _ _ _))
      (.defaulted (by decide) _ _ _)) (.defaulted (by decide) _ _ _))
      (.defaulted (by decide) _ _ _)) (.defaulted (by decide) _ _ _)) (.defaulted (by decide) _ _ _)
  | signedBundle =>
    refine .map (.record (fun received => ?_) v)
    exact .and (.and (.and (.ok _) (.required (by decide) _ _)) (.required (by decide) _ _))
      (.defaulted (by decide) _ _ _)
  | signedBundles => exact .map (.record (fun received => .defaulted (by decide) _ _ _) v)
  | score =>
    refine .map (.record (fun received => ?_) v)
    exact .and (.and (.and (.and (.ok _) (.required (by decide) _ _)) (.required (by decide) _ _))
      (.required (by decide) _ _)) (.required (by decide) _ _)
  | coefficient => exact .map (.record (fun received => .defaulted (by decide) _ _ _) v)

end Blames

section Received

variable {α : Type}

theorem elements_eq_ok_iff {read : Value → Checked α} {index : Nat} {values : List Value}
    {as : List α} : Checked.elements read index values = .ok as ↔
      List.Forall₂ (fun v a => read v = .ok a) values as := by
  induction values generalizing index as with
  | nil => cases as <;> simp [Checked.elements]
  | cons v rest ih => cases as <;> simp [Checked.elements, ih]

theorem readList_eq_ok_iff {read : Value → Checked α} {v : Value} {as : List α} :
    readList read v = .ok as ↔
      ∃ values, v = .list values ∧ List.Forall₂ (fun v a => read v = .ok a) values as := by
  cases v <;> simp [readList, elements_eq_ok_iff]

theorem exists_readList {read : Value → Checked α} {as : List α}
    (each : ∀ a ∈ as, ∃ v, read v = .ok a) : ∃ v, readList read v = .ok as := by
  induction as with
  | nil => exact ⟨.list [], rfl⟩
  | cons a rest ih =>
    obtain ⟨first, others⟩ := List.forall_mem_cons.mp each
    obtain ⟨v, reads⟩ := first
    obtain ⟨w, all⟩ := ih others
    obtain ⟨values, -, listed⟩ := readList_eq_ok_iff.mp all
    exact ⟨.list (v :: values), readList_eq_ok_iff.mpr ⟨_, rfl, .cons reads listed⟩⟩

theorem exists_readOrNull {read : Value → Checked α} (each : ∀ a, ∃ v, v ≠ .null ∧ read v = .ok a)
    (a? : Option α) : ∃ v, readOrNull read v = .ok a? := by
  cases a? with
  | none => exact ⟨.null, rfl⟩
  | some a =>
    obtain ⟨v, given, reads⟩ := each a
    refine ⟨v, ?_⟩
    unfold readOrNull
    split
    next => exact absurd rfl given
    next => simp [reads]

theorem exists_readWorkerLoss (loss : WorkerLoss Float) : ∃ v, readWorkerLoss v = .ok loss :=
  ⟨.object [("worker", .text loss.worker), ("value", .float loss.loss)], rfl⟩

theorem exists_readBundle (bundle : Bundle Float) : ∃ v, readBundle v = .ok bundle := by
  have number : ∀ x, ∃ v, v ≠ .null ∧ readFloat v = .ok x := fun x => ⟨.float x, nofun, rfl⟩
  obtain ⟨combined, readsCombined⟩ := exists_readOrNull number bundle.combined
  obtain ⟨naive, readsNaive⟩ := exists_readOrNull number bundle.naive
  have losses : ∀ losses, ∃ v, readList readWorkerLoss v = .ok losses :=
    fun losses => exists_readList fun loss _ => exists_readWorkerLoss loss
  obtain ⟨inferer, readsInferer⟩ := losses bundle.oneOutInferer
  obtain ⟨forecaster, readsForecaster⟩ := losses bundle.oneOutForecaster
  obtain ⟨oneIn, readsOneIn⟩ := losses bundle.oneInForecaster
  refine ⟨.object [("topic_id", .int bundle.topic), ("combined_value", combined),
    ("naive_value", naive), ("one_out_inferer_values", inferer),
    ("one_out_forecaster_values", forecaster), ("one_in_forecaster_values", oneIn)], ?_⟩
  have topic : readInt (.int bundle.topic) = .ok bundle.topic := rfl
  exact Checked.and_of_ok (Checked.and_of_ok (Checked.and_of_ok (Checked.and_of_ok
    (Checked.and_of_ok (Checked.and_of_ok rfl (Fields.defaulted_of_lookup rfl topic))
      (Fields.defaulted_of_lookup rfl readsCombined)) (Fields.defaulted_of_lookup rfl readsNaive))
      (Fields.defaulted_of_lookup rfl readsInferer))
      (Fields.defaulted_of_lookup rfl readsForecaster)) (Fields.defaulted_of_lookup rfl readsOneIn)

def IsText (bytes : List UInt8) : Prop := ∃ s : String, s.toUTF8.toList = bytes

theorem isText_of_readBytes {v : Value} {bytes : List UInt8} (reads : readBytes v = .ok bytes) :
    IsText bytes := by
  cases v with
  | text s => exact ⟨s, Except.ok.inj reads⟩
  | _ => cases reads

theorem exists_readSignedBundle_iff {sent : SignedBundle} :
    (∃ v, readSignedBundle v = .ok sent) ↔ IsText sent.signature := by
  constructor
  · rintro ⟨v, reads⟩
    obtain ⟨fields, -, reads⟩ := readRecord_eq_ok_iff.mp reads
    obtain ⟨_, second, signature, signs, rfl⟩ := Checked.and_eq_ok_iff.mp reads
    obtain ⟨_, first, bundle, -, rfl⟩ := Checked.and_eq_ok_iff.mp second
    obtain ⟨_, made, reputer, -, rfl⟩ := Checked.and_eq_ok_iff.mp first
    cases made
    rcases Fields.defaulted_eq_ok_iff.mp signs with ⟨v, -, reads⟩ | ⟨-, rfl⟩
    · exact isText_of_readBytes reads
    · exact ⟨"", by simp [ByteArray.toList, ByteArray.toList.loop]⟩
  · rintro ⟨s, same⟩
    obtain ⟨bundle, readsBundle⟩ := exists_readBundle sent.bundle
    refine ⟨.object [("reputer", .text sent.reputer), ("value_bundle", bundle),
      ("signature", .text s)], ?_⟩
    have reputer : readText (.text sent.reputer) = .ok sent.reputer := rfl
    have signature : readBytes (.text s) = .ok sent.signature := congrArg _ same
    exact Checked.and_of_ok (Checked.and_of_ok (Checked.and_of_ok rfl
      (Fields.required_of_lookup rfl reputer)) (Fields.required_of_lookup rfl readsBundle))
      (Fields.defaulted_of_lookup rfl signature)

theorem exists_readSignedBundles_iff {sent : List SignedBundle} :
    (∃ v, readSignedBundles v = .ok sent) ↔ ∀ bundle ∈ sent, IsText bundle.signature := by
  constructor
  · rintro ⟨v, reads⟩ bundle inside
    obtain ⟨fields, -, reads⟩ := readRecord_eq_ok_iff.mp reads
    rcases Fields.defaulted_eq_ok_iff.mp reads with ⟨v, -, reads⟩ | ⟨-, rfl⟩
    · obtain ⟨values, -, listed⟩ := readList_eq_ok_iff.mp reads
      obtain ⟨w, -, reads⟩ := exists_left_of_forall₂ listed inside
      exact exists_readSignedBundle_iff.mp ⟨w, reads⟩
    · cases inside
  · intro each
    obtain ⟨v, reads⟩ := exists_readList fun bundle inside =>
      exists_readSignedBundle_iff.mpr (each bundle inside)
    have found : Fields.defaulted [("reputer_value_bundles", v)] "reputer_value_bundles" []
        (readList readSignedBundle) = .ok sent := Fields.defaulted_of_lookup rfl reads
    exact ⟨.object [("reputer_value_bundles", v)], found⟩

theorem exists_readScore (score : Score Float) : ∃ v, readScore v = .ok score :=
  ⟨.object [("topic_id", .int score.topic), ("block_number", .int score.block),
    ("address", .text score.account), ("score", .float score.value)], rfl⟩

theorem readAboveLeast_eq_ok_iff {v : Value} {c : Float} :
    readAboveLeast v = .ok c ↔ readFloat v = .ok c ∧ 0.0 ≤ c := by
  unfold readAboveLeast
  cases readFloat v with
  | error problems => simp
  | ok x =>
    dsimp only
    split
    next above =>
      rw [Except.ok.injEq]
      exact ⟨fun same => ⟨same, same ▸ above⟩, And.left⟩
    next below =>
      constructor
      · intro wrong
        cases wrong
      · rintro ⟨⟨⟩, above⟩
        exact absurd above below

/-- The default is read without a check, and would pass it. -/
theorem exists_readCoefficient_iff {c : Float} : (∃ v, readCoefficient v = .ok c) ↔ 0.0 ≤ c := by
  constructor
  · rintro ⟨v, reads⟩
    obtain ⟨fields, -, reads⟩ := readRecord_eq_ok_iff.mp reads
    rcases Fields.defaulted_eq_ok_iff.mp reads with ⟨v, -, reads⟩ | ⟨-, rfl⟩
    · exact (readAboveLeast_eq_ok_iff.mp reads).2
    · decide
  · intro above
    have reads : readAboveLeast (.float c) = .ok c := readAboveLeast_eq_ok_iff.mpr ⟨rfl, above⟩
    have found : Fields.defaulted [("coefficient", .float c)] "coefficient" neutralCoefficient
        readAboveLeast = .ok c := Fields.defaulted_of_lookup rfl reads
    exact ⟨.object [("coefficient", .float c)], found⟩

def Record.Receivable : Record → Prop
  | .signedBundle sent => IsText sent.signature
  | .signedBundles sent => ∀ bundle ∈ sent, IsText bundle.signature
  | .coefficient value => 0.0 ≤ value
  | .workerLoss _ | .bundle _ | .score _ => True

theorem exists_read_iff (record : Record) :
    (∃ v, read record.kind v = .ok record) ↔ record.Receivable := by
  unfold Record.Receivable
  cases record with
  | workerLoss loss => simpa [read, Record.kind] using exists_readWorkerLoss loss
  | bundle bundle => simpa [read, Record.kind] using exists_readBundle bundle
  | signedBundle sent =>
    dsimp only
    rw [← exists_readSignedBundle_iff]
    simp [read, Record.kind]
  | signedBundles sent =>
    dsimp only
    rw [← exists_readSignedBundles_iff]
    simp [read, Record.kind]
  | score score => simpa [read, Record.kind] using exists_readScore score
  | coefficient value =>
    dsimp only
    rw [← exists_readCoefficient_iff]
    simp [read, Record.kind]

end Received

namespace OpenRecord

variable {α : Type} {r after : OpenRecord} {name : String} {v : Value}

theorem record_of_assign (assigned : r.assign name v = .ok after) : after.record = r.record := by
  unfold assign at assigned
  split at assigned
  next reserved _ =>
    unfold assignReserved at assigned
    split at assigned <;> cases assigned
    rfl
  next =>
    split at assigned
    next =>
      cases assigned
      rfl
    next =>
      unfold assignField at assigned
      dsimp only at assigned
      split_ifs at assigned
      cases assigned
      rfl

theorem record_of_assigned {start : OpenRecord} {assignments : Fields}
    (runs : assignments.foldlM (fun r (field, v) => r.assign field v) start = .ok r) :
    r.record = start.record := by
  induction assignments generalizing start with
  | nil =>
    cases runs
    rfl
  | cons assignment rest ih =>
    rw [List.foldlM_cons] at runs
    obtain ⟨next, assigned, later⟩ := Fault.bind_eq_ok_iff.mp runs
    exact (ih later).trans (record_of_assign assigned)

theorem record_of_receive {kind : RecordKind} {received : Value} {assignments : Fields}
    (receives : receive kind received assignments = .ok r) : read kind received = .ok r.record := by
  unfold receive at receives
  split at receives
  next record reads => rw [record_of_assigned receives, reads]
  next => cases receives

theorem field_of_assignField (assigned : r.assignField name v = .ok after)
    (show? : Value → Except Misuse α) (received : α) :
    after.field name show? received = show? v ∧
      ∀ other ≠ name, after.field other show? received = r.field other show? received := by
  unfold assignField at assigned
  dsimp only at assigned
  split_ifs at assigned
  cases assigned
  unfold field
  constructor
  · rw [List.lookup_cons_self]
  · intro other different
    dsimp only
    rw [List.lookup_cons, beq_eq_false_iff_ne.mpr different]

theorem eq_of_assign_score (frozen : r.record.kind = .score)
    (plain : Reserved.ofName? name = none) (assigned : r.assign name v = .ok after) : after = r := by
  unfold assign at assigned
  rw [plain] at assigned
  dsimp only at assigned
  split at assigned
  next =>
    cases assigned
    rfl
  next =>
    unfold assignField at assigned
    rw [if_pos frozen] at assigned
    cases assigned

theorem field_of_received (nothing : r.assigned = []) (keeps : r.keepsReceived = true)
    (name : String) (show? : Value → Except Misuse α) (received : α) :
    r.field name show? received = .ok received := by
  unfold field
  rw [nothing, keeps]
  rfl

theorem shown_of_received (nothing : r.assigned = []) (keeps : r.keepsReceived = true) :
    r.shown = .ok (.of r.record) := by
  unfold shown
  split <;> rename_i own <;> simp only [field_of_received nothing keeps, own] <;> rfl

end OpenRecord

end RoundScoring.Wire
