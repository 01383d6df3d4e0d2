/-!
Log lines, their levels, and the styles that mark up what they mention.
-/
namespace EntityQuery

/-- A level of importance. -/
structure LogLevel where
  rank : Int
  deriving DecidableEq, Repr

namespace LogLevel

def debug : LogLevel := ⟨10⟩
def info : LogLevel := ⟨20⟩
def warning : LogLevel := ⟨30⟩
def error : LogLevel := ⟨40⟩
def critical : LogLevel := ⟨50⟩

/-- The name of a level; one between the named ones is told by its rank. -/
def name (l : LogLevel) : String :=
  if l.rank = 0 then "NOTSET" else if l.rank = 10 then "DEBUG" else if l.rank = 20 then "INFO"
  else if l.rank = 30 then "WARNING" else if l.rank = 40 then "ERROR"
  else if l.rank = 50 then "CRITICAL" else "Level " ++ toString l.rank

end LogLevel

/-- A message at its level. -/
structure LogLine where
  level : LogLevel
  message : String
  deriving DecidableEq, Repr

/-- What a log line can mention, each with its style. -/
inductive Style where
  | entity | aliasName | field | operator | cache | dim
  deriving DecidableEq, Repr

def Style.markup : Style → String
  | entity => "bold cyan"
  | aliasName => "magenta"
  | field => "green"
  | operator => "yellow"
  | cache => "blue"
  | dim => "dim"

/-- The word that names a style. -/
def Style.word : Style → String
  | entity => "entity"
  | aliasName => "alias"
  | field => "field"
  | operator => "operator"
  | cache => "cache"
  | dim => "dim"

def Style.all : List Style := [entity, aliasName, field, operator, cache, dim]

/-- Text between the opening and the closing tag of a style. -/
def tagged (tag text : String) : String := "[" ++ tag ++ "]" ++ text ++ "[/" ++ tag ++ "]"

def Style.mark (s : Style) (text : String) : String := tagged s.markup text

/-- The end of a line that tells how long a block took; the time itself is left open. -/
def elapsed : String := Style.dim.mark "(*ms)"

end EntityQuery
