/-!
Faults of validation: what is wrong with an input, and where it stands.
-/
namespace EntityQuery

/-- What is wrong with an input. -/
inductive FaultKind where
  | notInteger
  | integerUnreadable
  | integerTooLong
  | fractional
  | notFinite
  | below (bound : Int)
  | notBoolean
  | booleanUnreadable
  | notText
  | textUnreadable
  | notList
  | notMapping
  | notRecord (record : String)
  | notChoice (choices : List String)
  | unexpected
  | badKey
  | missing
  deriving DecidableEq, Repr

/-- A step on the way to a faulty input. -/
inductive PathPart where
  | name (s : String)
  | index (n : Int)
  deriving DecidableEq, Repr

/-- A fault and the way to it from the whole input. -/
structure Fault where
  kind : FaultKind
  path : List PathPart
  deriving DecidableEq, Repr

namespace FaultKind

/-- The short name of a fault. -/
def code : FaultKind → String
  | notInteger => "int_type"
  | integerUnreadable => "int_parsing"
  | integerTooLong => "int_parsing_size"
  | fractional => "int_from_float"
  | notFinite => "finite_number"
  | below _ => "greater_than_equal"
  | notBoolean => "bool_type"
  | booleanUnreadable => "bool_parsing"
  | notText => "string_type"
  | textUnreadable => "string_unicode"
  | notList => "list_type"
  | notMapping => "dict_type"
  | notRecord _ => "model_type"
  | notChoice _ => "enum"
  | unexpected => "extra_forbidden"
  | badKey => "invalid_key"
  | missing => "missing"

/-- Choices in quotes, with commas between them and `or` before the last. -/
def choicesText (choices : List String) : String :=
  let quoted := choices.map fun c => "'" ++ c ++ "'"
  match quoted.reverse with
  | [] => ""
  | [c] => c
  | c :: rest => ", ".intercalate rest.reverse ++ " or " ++ c

/-- The sentence that tells a fault. -/
def message : FaultKind → String
  | notInteger => "Input should be a valid integer"
  | integerUnreadable => "Input should be a valid integer, unable to parse string as an integer"
  | integerTooLong => "Unable to parse input string as an integer, exceeded maximum size"
  | fractional => "Input should be a valid integer, got a number with a fractional part"
  | notFinite => "Input should be a finite number"
  | below bound => "Input should be greater than or equal to " ++ toString bound
  | notBoolean => "Input should be a valid boolean"
  | booleanUnreadable => "Input should be a valid boolean, unable to interpret input"
  | notText => "Input should be a valid string"
  | textUnreadable =>
    "Input should be a valid string, unable to parse raw data as a unicode string"
  | notList => "Input should be a valid list"
  | notMapping => "Input should be a valid dictionary"
  | notRecord record => "Input should be a valid dictionary or instance of " ++ record
  | notChoice choices => "Input should be " ++ choicesText choices
  | unexpected => "Extra inputs are not permitted"
  | badKey => "Keys should be strings"
  | missing => "Field required"

end FaultKind

/-- A fault seen from one step further out. -/
def Fault.under (part : PathPart) (f : Fault) : Fault := { f with path := part :: f.path }

/-- A value, or all that is wrong with its input. -/
abbrev Checked (α : Type) := Except (List Fault) α

namespace Checked

/-- One fault at the input itself. -/
def fail {α : Type} (kind : FaultKind) : Checked α := .error [⟨kind, []⟩]

def under {α : Type} (part : PathPart) : Checked α → Checked α
  | .ok a => .ok a
  | .error fs => .error (fs.map (Fault.under part))

/-- Both values, or the faults of both in order. -/
def both {α β : Type} : Checked α → Checked β → Checked (α × β)
  | .ok a, .ok b => .ok (a, b)
  | .ok _, .error fs => .error fs
  | .error fs, .ok _ => .error fs
  | .error fs, .error gs => .error (fs ++ gs)

/-- All values, or the faults of all in order. -/
def every {α : Type} : List (Checked α) → Checked (List α)
  | [] => .ok []
  | c :: cs => (both c (every cs)).map fun p => p.1 :: p.2

theorem both_eq_ok_iff {α β : Type} {a : Checked α} {b : Checked β} {p : α × β} :
    both a b = .ok p ↔ a = .ok p.1 ∧ b = .ok p.2 := by
  obtain ⟨x, y⟩ := p
  cases a <;> cases b <;> simp [both]

end Checked
end EntityQuery
