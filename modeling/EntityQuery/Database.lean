import EntityQuery.Schema
/-!
Tables of rows, with insertion under the constraints of their columns and deletion by column
values.
-/
namespace EntityQuery

/-- A row: cells under column names. -/
abbrev Row := List (String × Cell)

def Row.get (row : Row) (column : String) : Cell := (List.lookup column row).getD .null

/-- The rows of each table, by their integer key, or else in order of insertion. -/
structure Database where
  tables : List (String × List Row)
  deriving DecidableEq, Repr

/-- Why a row cannot be stored. -/
inductive StoreError where
  | missingValue
  | repeatedKey
  | unknownTable
  | unknownColumn
  deriving DecidableEq, Repr

namespace Database

def rows (db : Database) (table : String) : List Row := (db.tables.lookup table).getD []

/-- Replaces the rows of a table. -/
def setRows (db : Database) (table : String) (rows : List Row) : Database :=
  if db.tables.any (·.1 == table) then
    ⟨db.tables.map fun t => if t.1 == table then (t.1, rows) else t⟩
  else ⟨db.tables ++ [(table, rows)]⟩

def isIntegerKey (shape : TableShape) (c : Column) : Bool :=
  c.key && decide (c.type = .integer) && decide ((shape.columns.filter (·.key)).length = 1)

/-- The largest integer in a column, zero if there is none. -/
def largest (rows : List Row) (column : String) : Int :=
  rows.foldl (fun best r => match r.get column with
    | .integer n => max best n
    | _ => best) 0

/-- The cell of a new row: as given, the next key, or the default of the column. -/
def newCell (shape : TableShape) (existing : List Row) (given : Row) (c : Column) : Cell :=
  match List.lookup c.name given with
  | some .null | none =>
    if isIntegerKey shape c then .integer (largest existing c.name + 1)
    else if (List.lookup c.name given).isSome then .null else c.default
  | some cell => cell

/-- The full row of a table for the given cells. -/
def completeRow (shape : TableShape) (existing : List Row) (given : Row) : Row :=
  shape.columns.map fun c => (c.name, newCell shape existing given c)

def sameKeyRow (shape : TableShape) (a b : Row) : Bool :=
  (shape.columns.filter (·.key)).all fun c =>
    a.get c.name != .null && Cell.order (a.get c.name) (b.get c.name) == .eq

/-- Puts a row before the first one with a greater integer key, or at the end. -/
def placeRow (shape : TableShape) (row : Row) (rows : List Row) : List Row :=
  match shape.columns.find? (isIntegerKey shape) with
  | none => rows ++ [row]
  | some c =>
    let after := fun r : Row => Cell.order (row.get c.name) (r.get c.name) == .lt
    rows.takeWhile (fun r => !after r) ++ row :: rows.dropWhile (fun r => !after r)

/-- Adds a row to a table. -/
def insert (db : Database) (shape : TableShape) (given : Row) : Except StoreError Database :=
  if given.any fun p => !(shape.columns.any (·.name == p.1)) then .error .unknownColumn
  else
    let existing := db.rows shape.name
    let row := completeRow shape existing given
    if shape.columns.any fun c => !c.optional && row.get c.name == .null then .error .missingValue
    else if shape.columns.any (·.key) && existing.any (sameKeyRow shape row) then
      .error .repeatedKey
    else .ok (db.setRows shape.name (placeRow shape row existing))

/-- Adds rows one after the other. -/
def insertAll (db : Database) (shape : TableShape) (given : List Row) :
    Except StoreError Database :=
  given.foldlM (fun d row => d.insert shape row) db

end Database
end EntityQuery
