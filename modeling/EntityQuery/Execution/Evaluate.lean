import EntityQuery.Database
import EntityQuery.Execution.Parameter
/-!
The meaning of predicates on joined rows, in three-valued logic, and of sources and selections on
the rows of a database.
-/
namespace EntityQuery

/-- A joined row: the row of each owner. An owner without a match has none, so that all of its
columns are null. -/
abbrev JoinedRow := List (Owner × Row)

def JoinedRow.get (r : JoinedRow) (c : ColumnRef) : Cell :=
  ((List.lookup c.owner r).getD []).get c.column.name

/-- True, false, or unknown. -/
abbrev Truth := Option Bool

namespace Truth

def not (a : Truth) : Truth := Option.map (!·) a

/-- False if either is false, true if both are true. -/
def and (a b : Truth) : Truth :=
  match a, b with
  | some false, _ => some false
  | _, some false => some false
  | some true, some true => some true
  | _, _ => none

def or (a b : Truth) : Truth :=
  match a, b with
  | some true, _ => some true
  | _, some true => some true
  | some false, some false => some false
  | _, _ => none

theorem not_and (a b : Truth) : not (and a b) = or (not a) (not b) := by
  rcases a with _ | _ | _ <;> rcases b with _ | _ | _ <;> rfl

theorem not_not (a : Truth) : not (not a) = a := by
  rcases a with _ | _ | _ <;> rfl

end Truth

/-- The number that a text writes, blanks around it allowed. -/
def numberOfText? (s : String) : Option Cell :=
  (Number.DecimalText.read? (Text.trimBy Text.isAsciiBlank s.toList)).map fun d =>
    let n : Int := if d.minus then -d.digits else d.digits
    if d.whole && inCellRange n then .integer n else .real d.toDouble

/-- A text that writes a number becomes this number. -/
def Cell.asNumber : Cell → Cell
  | .text s => (numberOfText? s).getD (.text s)
  | c => c

/-- The text of a number. -/
def Cell.asText : Cell → Cell
  | .integer n => .text (toString n)
  | .real x => .text (Number.columnText x)
  | c => c

/-- The text that a pattern is matched with; null has none. -/
def Cell.matchedText? : Cell → Option String
  | .null => none
  | .integer n => some (toString n)
  | .real x => some (Number.columnText x)
  | .text s => some s
  | .blob b => some ((String.fromUTF8? (ByteArray.mk b.toArray)).getD "")

/-- A value beside a column of a type: a text column turns numbers into texts, any other column
turns number texts into numbers. -/
def alignedWith (t : ColumnType) (c : Cell) : Cell :=
  if t = .text then c.asText else c.asNumber

/-- Two columns side by side: beside a number column a text column is read as numbers. -/
def alignedColumns (t u : ColumnType) (a b : Cell) : Cell × Cell :=
  match decide (t = .text), decide (u = .text) with
  | true, false => (a.asNumber, b)
  | false, true => (a, b.asNumber)
  | _, _ => (a, b)

/-- Comparison of cells; unknown if either is null. -/
def compareCells (op : Comparison) (a b : Cell) : Truth :=
  if a.isNull || b.isNull then none else some (op.holds (a.order b))

/-- Characters up to the first NUL. -/
def untilNul (s : String) : List Char := s.toList.takeWhile (· != '\x00')

def suffixes : List Char → List (List Char)
  | [] => [[]]
  | c :: cs => (c :: cs) :: suffixes cs

/-- Whether a text matches a pattern, where a percent sign stands for any characters, an underscore
for one, and ASCII letters match in any case. -/
def matchesPattern : List Char → List Char → Bool
  | [], cs => cs.isEmpty
  | '%' :: ps, cs => (suffixes cs).any (matchesPattern ps)
  | '_' :: ps, cs => match cs with
    | [] => false
    | _ :: rest => matchesPattern ps rest
  | p :: ps, cs => match cs with
    | [] => false
    | c :: rest => p.toLower == c.toLower && matchesPattern ps rest

/-- Pattern matching of cells; unknown if either is null. -/
def matchCells (style : PatternStyle) (a pattern : Cell) : Truth :=
  match a.matchedText?, pattern.matchedText? with
  | some s, some p => match style with
    | .whole => some (matchesPattern (untilNul p) (untilNul s))
    | .folded =>
      some (matchesPattern (untilNul (Text.lowerAscii p)) (untilNul (Text.lowerAscii s)))
    | .start => some (matchesPattern (untilNul (p ++ "%")) (untilNul s))
  | _, _ => none

/-- Whether a cell equals one of several; unknown if none does and a null is involved. -/
def memberOf (a : Cell) : List Cell → Truth
  | [] => some false
  | b :: bs => Truth.or (compareCells .equal a b) (memberOf a bs)

namespace Operand

/-- The two sides of a comparison of a column with an operand. -/
def sides (l : ColumnRef) (row : JoinedRow) : Operand → Cell × Cell
  | value v => (row.get l, alignedWith l.column.type (singleCell l.column.type v))
  | column d => alignedColumns l.column.type d.column.type (row.get l) (row.get d)

/-- The pattern that an operand gives. -/
def pattern (l : ColumnRef) (row : JoinedRow) : Operand → Cell
  | value v => singleCell l.column.type v
  | column d => row.get d

end Operand

def negatedIf (b : Bool) (t : Truth) : Truth := if b then t.not else t

namespace Predicate

mutual

/-- The truth of a predicate on a joined row. -/
def eval (row : JoinedRow) : Predicate → Truth
  | constant b => some b
  | compare op l r =>
    let (a, b) := r.sides l row
    compareCells op a b
  | truth e l b =>
    compareCells (if e then .equal else .notEqual) (row.get l)
      (alignedWith l.column.type (.integer (if b then 1 else 0)))
  | nullTest n l => some ((row.get l).isNull == n)
  | like n style l r => negatedIf n (matchCells style (row.get l) (r.pattern l row))
  | member n l vs =>
    negatedIf n (memberOf (row.get l)
      ((severalCells l.column.type vs).map (alignedWith l.column.type)))
  | between l low high =>
    let bound (v : Value) : Cell := alignedWith l.column.type (singleCell l.column.type v)
    Truth.and (compareCells .greaterOrEqual (row.get l) (bound low))
      (compareCells .lessOrEqual (row.get l) (bound high))
  | all ps => evalAll row ps
  | any ps => evalAny row ps
  | negation p => (eval row p).not

def evalAll (row : JoinedRow) : List Predicate → Truth
  | [] => some true
  | p :: ps => Truth.and (eval row p) (evalAll row ps)

def evalAny (row : JoinedRow) : List Predicate → Truth
  | [] => some false
  | p :: ps => Truth.or (eval row p) (evalAny row ps)

end

/-- Whether a predicate is true on a row, and not false or unknown. -/
def holds (row : JoinedRow) (p : Predicate) : Bool := p.eval row == some true

end Predicate

/-- The rows of a source. An outer join keeps a left row without a match as it is. -/
def Source.rows (db : Database) : Source → List JoinedRow
  | table owner name _ => (db.rows name).map fun r => [(owner, r)]
  | join left right outer on =>
    let rights := right.rows db
    (left.rows db).flatMap fun l =>
      let matched := (rights.map (l ++ ·)).filter fun row => on.holds row
      if outer && matched.isEmpty then [l] else matched

/-- Every combination of rows of several sources. -/
def productRows (db : Database) : List Source → List JoinedRow
  | [] => [[]]
  | s :: rest => (s.rows db).flatMap fun l => (productRows db rest).map (l ++ ·)

def Direction.apply : Direction → Ordering → Ordering
  | ascending, o => o
  | descending, o => o.swap

/-- Order of two rows by the first column in which they differ. -/
def compareRows (order : List (ColumnRef × Direction)) (a b : JoinedRow) : Ordering :=
  match order with
  | [] => .eq
  | (c, d) :: rest => (d.apply ((a.get c).order (b.get c))).then (compareRows rest a b)

/-- The rows between the bounds. -/
def within {α : Type} (limit offset : Option Nat) (rows : List α) : List α :=
  let rest := rows.drop (offset.getD 0)
  match limit with
  | some n => rest.take n
  | none => rest

namespace Select

/-- The rows that satisfy the conditions, in order, between the bounds. -/
def rows (s : Select) (db : Database) : List JoinedRow :=
  let matched := (productRows db s.sources).filter fun row => s.conditions.all (·.holds row)
  within s.limit s.offset (matched.mergeSort fun a b => compareRows s.order a b != .gt)

/-- The cells of the selected columns. -/
def cells (s : Select) (row : JoinedRow) : List Cell := s.columns.map row.get

/-- How many distinct rows of cells there are. -/
def countDistinct (s : Select) (db : Database) : Nat :=
  ((s.rows db).map s.cells).eraseDups.length

end Select
end EntityQuery
