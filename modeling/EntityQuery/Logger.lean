import EntityQuery.Log
import EntityQuery.Value
/-!
Loggers: which lines pass, and how deep they are indented.
-/
namespace EntityQuery

/-- Why a value is no level. -/
inductive LevelError where
  | unknownName (name : String)
  | notLevel (v : Value)

def LevelError.message : LevelError → String
  | unknownName name => "Unknown level: " ++ Text.quoted name
  | notLevel v => "Level not an integer or a valid string: " ++ v.literal

namespace LogLevel

/-- The named levels, in capitals. -/
def named : List (String × LogLevel) :=
  [("CRITICAL", critical), ("FATAL", critical), ("ERROR", error), ("WARN", warning),
   ("WARNING", warning), ("INFO", info), ("DEBUG", debug), ("NOTSET", ⟨0⟩)]

def ofName? (name : String) : Option LogLevel := named.lookup name

/-- A level by its rank or its name. -/
def ofValue (v : Value) : Except LevelError LogLevel :=
  match v, v.integer? with
  | .text name, _ => match ofName? name with
    | some l => .ok l
    | none => .error (.unknownName name)
  | _, some n => .ok ⟨n⟩
  | v, none => .error (.notLevel v)

end LogLevel

/-- A logger with its own level, where rank zero stands for none, and the depth of its lines. -/
structure Logger where
  level : LogLevel := .warning
  depth : Nat := 0
  deriving DecidableEq, Repr

namespace Logger

/-- The level that lines have to reach. -/
def threshold (l : Logger) : LogLevel := if l.level.rank = 0 then .warning else l.level

/-- Whether lines of a level pass; those of rank zero and below never do. -/
def passes (l : Logger) (level : LogLevel) : Bool :=
  decide (0 < level.rank ∧ l.threshold.rank ≤ level.rank)

def indentation (depth : Nat) : String := String.ofList (List.replicate (2 * depth) ' ')

/-- The line of a message, if its level passes. -/
def line (l : Logger) (level : LogLevel) (message : String) : List LogLine :=
  if l.passes level then [⟨level, indentation l.depth ++ message⟩] else []

/-- The line of a success. -/
def success (l : Logger) (message : String) : List LogLine :=
  l.line .info (tagged "green" "✓" ++ " " ++ message)

/-- The heading of a section. -/
def sectionHeading (l : Logger) (title : String) : List LogLine :=
  l.line .info (tagged "bold" ("── " ++ title ++ " ──"))

/-- One step deeper. -/
def indented (l : Logger) : Logger := { l with depth := l.depth + 1 }

/-- One step back. -/
def outdented (l : Logger) : Logger := { l with depth := l.depth - 1 }

/-- The lines of a block, and the line that tells how long it took. -/
def timed (l : Logger) (label : String) (level : LogLevel) (block : Logger → List LogLine) :
    List LogLine :=
  block l ++ l.line level (label ++ " " ++ elapsed)

/-- The logger with a level set; it stays as it is if the value is none. -/
def setLevel (l : Logger) (v : Value) : Except LevelError Logger :=
  (LogLevel.ofValue v).map fun level => { l with level := level }

theorem outdented_indented (l : Logger) : l.indented.outdented = l := rfl

end Logger
end EntityQuery
