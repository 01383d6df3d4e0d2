import EntityQuery.Predicate.Basic
import EntityQuery.Descriptor.Basic
/-!
Statements: a selection from joined tables, and the count of its distinct keys.
-/
namespace EntityQuery

/-- A table under an alias, or a join of two sources. -/
inductive Source where
  | table (owner : Owner) (name aliasName : String)
  | join (left right : Source) (outer : Bool) (on : Predicate)

namespace Source

/-- The tables of a source, from left to right: owner, name and alias. -/
def tables : Source → List (Owner × String × String)
  | table owner name aliasName => [(owner, name, aliasName)]
  | join left right _ _ => left.tables ++ right.tables

def owners (s : Source) : List Owner := s.tables.map Prod.fst

end Source

/-- A selection of rows. -/
structure Select where
  columns : List ColumnRef
  sources : List Source
  conditions : List Predicate
  order : List (ColumnRef × Direction) := []
  limit : Option Nat := none
  offset : Option Nat := none

end EntityQuery
