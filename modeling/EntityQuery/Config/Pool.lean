import EntityQuery.Reader
/-!
How connections are pooled.
-/
namespace EntityQuery

/-- Bounds of a pool: connections kept, connections beyond them, seconds to wait for one, seconds
until one is renewed, and whether one is tried before use. -/
structure Pool where
  size : Int := 5
  overflow : Int := 10
  timeout : Int := 30
  recycle : Int := 1800
  isTried : Bool := true
  deriving DecidableEq, Repr

namespace Pool

open Reader

/-- A field under its one spelling. -/
def single (name : String) : FieldName := ⟨name, name⟩

def sizeName : FieldName := single "pool_size"
def overflowName : FieldName := single "max_overflow"
def timeoutName : FieldName := single "pool_timeout"
def recycleName : FieldName := single "pool_recycle"
def triedName : FieldName := single "pool_pre_ping"

/-- The pool that a record writes; other names in it mean nothing. -/
def ofRecord (record : List (Value × Value)) : Checked Pool :=
  let d : Pool := {}
  let size := field record sizeName (.ok d.size) (integerFrom 1)
  let overflow := field record overflowName (.ok d.overflow) (integerFrom 0)
  let timeout := field record timeoutName (.ok d.timeout) (integerFrom 0)
  let recycle := field record recycleName (.ok d.recycle) integer
  let tried := field record triedName (.ok d.isTried) boolean
  (Checked.both size <| Checked.both overflow <| Checked.both timeout <|
    Checked.both recycle tried).map fun (s, o, t, r, p) => ⟨s, o, t, r, p⟩

/-- The pool that a value writes. -/
def ofValue : Value → Checked Pool
  | .mapping record => ofRecord record
  | _ => Checked.fail (.notRecord "PoolConfig")

/-- The bounds under their names. -/
def toEntries (p : Pool) : List (Value × Value) :=
  [(.text sizeName.snake, .integer p.size), (.text overflowName.snake, .integer p.overflow),
   (.text timeoutName.snake, .integer p.timeout), (.text recycleName.snake, .integer p.recycle),
   (.text triedName.snake, .boolean p.isTried)]

end Pool
end EntityQuery
