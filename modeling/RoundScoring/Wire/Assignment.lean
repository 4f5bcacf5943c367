import RoundScoring.Wire.Misuse

/-!
Records whose fields are assigned after they were received. An assigned field holds the value as it
came, and only showing the record asks whether that value can stand there. A score is frozen, so
no field of it can be assigned; but the contents of any record can be replaced as a whole.
-/

namespace RoundScoring.Wire

/-- A record with the values that were assigned to fields of it, the last one first. -/
structure OpenRecord where
  record : Record
  assigned : Fields
  /-- Whether fields without an assigned value still hold what was received. -/
  keepsReceived : Bool

namespace OpenRecord

/-- New contents take the place of all that the record held. Its kind, the references to it, the
fields that its kind has and the names of those it was given are its own. -/
def assignReserved (r : OpenRecord) (reserved : Reserved) (v : Value) : Except Misuse OpenRecord :=
  match reserved, v with
  | .kind, v => .error (.notKind v.typeName)
  | .contents, .object fields => .ok { r with assigned := fields, keepsReceived := false }
  | .contents, v => .error (.notContents v.typeName)
  | .references, _ => .error (.notWritable r.record.kind)
  | .declaredFields, _ | .givenFields, _ => .error (.readOnly r.record.kind reserved.name)

def properties : List String := ["model_extra", "model_fields_set"]

def assignField (r : OpenRecord) (field : String) (v : Value) : Except Refusal OpenRecord :=
  let kind := r.record.kind
  if kind = .score then .error (.problems [⟨.frozen, [.field field]⟩])
  else if field ∈ properties then .error (.misuse (.readOnly kind field))
  else if field ∉ kind.fields then .error (.misuse (.unknownField kind field))
  else .ok { r with assigned := (field, v) :: r.assigned }

/-- Names that begin with an underscore are no fields. What they are given is not shown, unless the
name is reserved. -/
def assign (r : OpenRecord) (field : String) (v : Value) : Except Refusal OpenRecord :=
  match Reserved.ofName? field with
  | some reserved => (r.assignReserved reserved v).mapError .misuse
  | none => if field.toList.head? = some '_' then .ok r else r.assignField field v

/-- Receives a record and assigns in turn; the first assignment that is refused ends it. -/
def receive (kind : RecordKind) (received : Value) (assignments : Fields) :
    Except Refusal OpenRecord :=
  match read kind received with
  | .ok record => assignments.foldlM (fun r (field, v) => r.assign field v) ⟨record, [], true⟩
  | .error problems => .error (.problems problems)

end OpenRecord

end RoundScoring.Wire
