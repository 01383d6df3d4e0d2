import EntityQuery.Execution.Evaluate
/-!
Running a statement. Parameters are fitted to their types first, then every name is resolved, then
the parameters are bound; the first of these that fails decides the error.
-/
namespace EntityQuery

/-- The aliases in reach, each with its table. -/
abbrev NameScope := List (String × String)

def Source.scope (s : Source) : NameScope := s.tables.map fun t => (t.2.2, t.2.1)

namespace Schema

/-- Whether a table has a column; letters match in any case. -/
def tableHas (s : Schema) (table column : String) : Bool :=
  ((s.table? table).map fun t => t.columns.any fun c =>
    Text.lowerAscii c.name == Text.lowerAscii column).getD false

/-- Whether a column belongs to exactly one table in reach. -/
def resolves (s : Schema) (scope : NameScope) (c : ColumnRef) : Bool :=
  scope.countP (fun t =>
    Text.lowerAscii t.1 == Text.lowerAscii c.aliasName && s.tableHas t.2 c.column.name) == 1

end Schema

/-- Whether all names in the join conditions of a source resolve. A join in parentheses reaches
only its own tables. -/
def Source.resolves (s : Schema) (scope : NameScope) : Source → Bool
  | table _ _ _ => true
  | join left right _ on =>
    left.resolves s scope &&
      (match right with
       | table _ _ _ => true
       | join a b c d => Source.resolves s (Source.join a b c d).scope (.join a b c d)) &&
      on.columns.all (s.resolves scope)

namespace Select

/-- Whether all names in a selection resolve. -/
def resolves (s : Schema) (q : Select) : Bool :=
  let scope := q.sources.flatMap Source.scope
  q.columns.all (s.resolves scope) && q.sources.all (Source.resolves s scope) &&
    (Predicate.columnsOf q.conditions).all (s.resolves scope) &&
    q.order.all fun c => s.resolves scope c.1

/-- What keeps a selection from being run, if anything does. -/
def check (s : Schema) (q : Select) : Except QueryError Unit :=
  if !q.parameters.all Parameter.fits then .error .unfitParameter
  else if !q.resolves s then .error .unresolvedName
  else q.checkStorable

/-- Runs a selection. -/
def run (s : Schema) (db : Database) (q : Select) : Except QueryError (List JoinedRow) :=
  (q.check s).map fun _ => q.rows db

/-- Counts the distinct rows of a selection. -/
def runCount (s : Schema) (db : Database) (q : Select) : Except QueryError Nat :=
  (q.check s).map fun _ => q.countDistinct db

end Select
end EntityQuery
