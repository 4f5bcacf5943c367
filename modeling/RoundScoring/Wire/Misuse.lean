import RoundScoring.Fault
import RoundScoring.Text.Quoted
import RoundScoring.Wire.Record

/-!
How a record can be handled wrongly after it was received: by assigning what cannot be assigned, or
by showing a value where it cannot stand.
-/

namespace RoundScoring.Wire

def Value.typeName : Value → String
  | .null => "NoneType"
  | .bool _ => "bool"
  | .int _ => "int"
  | .float _ => "float"
  | .text _ => "str"
  | .list _ => "list"
  | .object _ => "dict"

inductive Reserved where
  | kind
  | contents
  | references
  | declaredFields
  | givenFields
deriving DecidableEq

namespace Reserved

def all : List Reserved := [.kind, .contents, .references, .declaredFields, .givenFields]

def name : Reserved → String
  | .kind => "__class__"
  | .contents => "__dict__"
  | .references => "__weakref__"
  | .declaredFields => "__fields__"
  | .givenFields => "__fields_set__"

def ofName? (name : String) : Option Reserved := all.find? (·.name == name)

end Reserved

inductive Misuse where
  | unknownField (kind : RecordKind) (field : String)
  | readOnly (kind : RecordKind) (property : String)
  | notKind (typeName : String)
  | notContents (typeName : String)
  | notWritable (kind : RecordKind)
  /-- A text was assigned where a number is shown. -/
  | notNumeral (text : String)
  | notNumber (typeName : String)
  | numberTooLarge
  | notList (typeName : String)
  | lacksField (typeName field : String)
deriving DecidableEq

namespace Misuse

def kindName : Misuse → String
  | .unknownField .. | .notNumeral _ => Fault.Kind.value.name
  | .readOnly .. | .notWritable _ | .lacksField .. => "AttributeError"
  | .notKind _ | .notContents _ | .notNumber _ | .notList _ => "TypeError"
  | .numberTooLarge => Fault.Kind.overflow.name

def message : Misuse → String
  | .unknownField kind field =>
      "\"" ++ kind.name ++ "\" object has no field \"" ++ field ++ "\""
  | .readOnly kind property =>
      "property '" ++ property ++ "' of '" ++ kind.name ++ "' object has no setter"
  | .notKind typeName =>
      Reserved.kind.name ++ " must be set to a class, not '" ++ typeName ++ "' object"
  | .notContents typeName =>
      Reserved.contents.name ++ " must be set to a dictionary, not a '" ++ typeName ++ "'"
  | .notWritable kind =>
      "attribute '" ++ Reserved.references.name ++ "' of '" ++ kind.name ++
        "' objects is not writable"
  | .notNumeral text => "could not convert string to float: " ++ Text.Quoted.quoted text
  | .notNumber typeName =>
      "float() argument must be a string or a real number, not '" ++ typeName ++ "'"
  | .numberTooLarge => "int too large to convert to float"
  | .notList typeName => "'" ++ typeName ++ "' object is not iterable"
  | .lacksField typeName field =>
      "'" ++ typeName ++ "' object has no attribute '" ++ field ++ "'"

end Misuse

inductive Refusal where
  | problems (problems : List Problem)
  | misuse (misuse : Misuse)
deriving DecidableEq

end RoundScoring.Wire
