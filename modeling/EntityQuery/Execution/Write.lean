import EntityQuery.Execution.Evaluate
/-!
Writing rows of values into a database, and deleting the rows that match some values.
-/
namespace EntityQuery

/-- The cell that a column of a type keeps for a given one. -/
def keptCell (t : ColumnType) (c : Cell) : Cell :=
  match t, alignedWith t c with
  | .float, .integer n => ((Double.ofInt? n).map Cell.real).getD (.integer n)
  | _, d => d

/-- The cell that a value is written to a column as. -/
def writtenCell (column : Column) (v : Value) : Except QueryError Cell :=
  match (ParameterType.ofColumn column.type).fit v with
  | none => .error .unfitParameter
  | some w => (storedCell w).map (keptCell column.type)

namespace Database

/-- The cells of a row of values. -/
def writtenRow (shape : TableShape) (values : List (String × Value)) : Except QueryError Row :=
  values.mapM fun (name, v) => match shape.columns.find? (·.name == name) with
    | none => .error .refusedRow
    | some c => (writtenCell c v).map fun cell => (name, cell)

/-- Inserts a row of values. -/
def insertValues (s : Schema) (db : Database) (table : String) (values : List (String × Value)) :
    Except QueryError Database :=
  match s.table? table with
  | none => .error .refusedRow
  | some shape => (writtenRow shape values).bind fun row => match db.insert shape row with
    | .ok after => .ok after
    | .error _ => .error .refusedRow

/-- Whether a row has all the given values. -/
def rowMatches (shape : TableShape) (values : List (String × Value)) (row : Row) : Bool :=
  values.all fun (name, v) => match shape.columns.find? (·.name == name) with
    | none => false
    | some c => match v with
      | .null => (row.get name).isNull
      | v =>
        compareCells .equal (row.get name) (alignedWith c.type (singleCell c.type v)) == some true

/-- Deletes the rows with the given values: how many there were, and the database without them. -/
def deleteMatching (s : Schema) (db : Database) (table : String) (values : List (String × Value)) :
    Nat × Database :=
  match s.table? table with
  | none => (0, db)
  | some shape =>
    let matching := rowMatches shape values
    let rows := db.rows table
    (rows.countP matching, db.setRows table (rows.filter fun r => !matching r))

end Database
end EntityQuery
