/-!
Records as they are received: values of no fixed type, and what is wrong with one that was to be
read as a record. A problem names its cause and the place, from the outermost field inwards.

What is modelled here and in the modules that build on it is not scoring itself, but how the library
that checks records treats those of scoring: it reads them with some tolerance, finds every problem
of a value at once, and lets fields be assigned afterwards without a check.
-/

namespace RoundScoring.Wire

inductive Value where
  | null
  | bool (b : Bool)
  | int (n : Int)
  | float (x : Float)
  | text (s : String)
  | list (values : List Value)
  | object (fields : List (String × Value))

inductive Cause where
  | missing
  | notRecord
  | floatNotRead
  | notFloat
  | intNotRead
  | intTooLarge
  | intNotFinite
  | intWithFraction
  | notInt
  | notText
  | notBytes
  | notList
  | belowLeast
  | frozen
deriving DecidableEq

def Cause.name : Cause → String
  | .missing => "missing"
  | .notRecord => "model_type"
  | .floatNotRead => "float_parsing"
  | .notFloat => "float_type"
  | .intNotRead => "int_parsing"
  | .intTooLarge => "int_parsing_size"
  | .intNotFinite => "finite_number"
  | .intWithFraction => "int_from_float"
  | .notInt => "int_type"
  | .notText => "string_type"
  | .notBytes => "bytes_type"
  | .notList => "list_type"
  | .belowLeast => "greater_than_equal"
  | .frozen => "frozen_instance"

inductive Place where
  | field (name : String)
  | element (index : Nat)
deriving DecidableEq

structure Problem where
  cause : Cause
  place : List Place
deriving DecidableEq

/-- A value that was read, or everything that is wrong with it. -/
abbrev Checked (α : Type) : Type := Except (List Problem) α

namespace Checked

variable {α β : Type}

def pure (a : α) : Checked α := .ok a

def refused (cause : Cause) : Checked α := .error [⟨cause, []⟩]

/-- Problems inside a part are problems of the whole, one place further in. -/
def within (place : Place) : Checked α → Checked α
  | .ok a => .ok a
  | .error problems => .error (problems.map fun p => { p with place := place :: p.place })

/-- Both parts are read, so the problems of both are found. -/
def and (f : Checked (α → β)) (x : Checked α) : Checked β :=
  match f, x with
  | .ok f, .ok a => .ok (f a)
  | .error problems, .ok _ => .error problems
  | .ok _, .error problems => .error problems
  | .error first, .error second => .error (first ++ second)

def elements (read : Value → Checked α) : (index : Nat) → List Value → Checked (List α)
  | _, [] => .ok []
  | index, v :: rest =>
      and ((within (.element index) (read v)).map List.cons) (elements read (index + 1) rest)

@[simp] theorem within_eq_ok_iff {place : Place} {x : Checked α} {a : α} :
    within place x = .ok a ↔ x = .ok a := by
  cases x <;> simp [within]

@[simp] theorem map_eq_ok_iff {f : α → β} {x : Checked α} {b : β} :
    x.map f = .ok b ↔ ∃ a, x = .ok a ∧ f a = b := by
  cases x <;> simp [Except.map]

@[simp] theorem and_eq_ok_iff {f : Checked (α → β)} {x : Checked α} {b : β} :
    and f x = .ok b ↔ ∃ g, f = .ok g ∧ ∃ a, x = .ok a ∧ g a = b := by
  cases f <;> cases x <;> simp [and]

theorem and_of_ok {f : Checked (α → β)} {x : Checked α} {g : α → β} {a : α} (left : f = .ok g)
    (right : x = .ok a) : and f x = .ok (g a) :=
  and_eq_ok_iff.mpr ⟨g, left, a, right, rfl⟩

@[simp] theorem pure_eq_ok_iff {a b : α} : pure a = .ok b ↔ a = b := by
  simp [pure]

@[simp] theorem refused_ne_ok {cause : Cause} {a : α} : refused cause ≠ .ok a := by
  simp [refused]

end Checked
end RoundScoring.Wire
