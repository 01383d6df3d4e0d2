import EntityQuery.Cell
import EntityQuery.QueryError
import EntityQuery.Statement.Basic
import EntityQuery.Text.Blank
import EntityQuery.Text.Case
/-!
Parameters of statements: the type that a parameter takes on, the values that fit this type, and the
cells that they are stored as.
-/
namespace EntityQuery

/-- The type of a parameter. -/
inductive ParameterType where
  | boolean | float | moment | bytes
  /-- Passes every value on. -/
  | plain
  deriving DecidableEq, Repr

namespace ParameterType

def ofColumn : ColumnType → ParameterType
  | .boolean => boolean
  | .float => float
  | .moment => moment
  | .integer => plain
  | .text => plain

/-- The type that a value itself decides, if it does. -/
def ofValue? : Value → Option ParameterType
  | .boolean _ => some boolean
  | .integer _ => some plain
  | .float _ => some float
  | .text _ => some plain
  | .bytes _ => some bytes
  | .moment _ => some moment
  | _ => none

/-- The type of a single parameter: by its value, or else by the column it is compared with. -/
def ofSingle (column : ColumnType) (v : Value) : ParameterType :=
  (ofValue? v).getD (ofColumn column)

/-- The type of a list of parameters, decided by the first of them. -/
def ofSeveral (column : ColumnType) (vs : List Value) : ParameterType :=
  ((vs.head?).bind ofValue?).getD (ofColumn column)

end ParameterType

/-- Underscores between digits dropped; none if one stands elsewhere. -/
def dropUnderscores? (afterDigit : Bool) : List Char → Option (List Char)
  | [] => some []
  | '_' :: c :: rest =>
    if afterDigit && c.isDigit then (dropUnderscores? true rest).map (c :: ·) else none
  | ['_'] => none
  | c :: rest => (dropUnderscores? c.isDigit rest).map (c :: ·)

/-- The floating-point number that a text writes. -/
def readFloatText? (s : String) : Option Double :=
  let (minus, body) := Number.readSign (Text.trimBy Text.isBlankOrSeparator s.toList)
  let word := Text.lowerAscii (String.ofList body)
  if word = "nan" then some Double.nan
  else if word = "inf" ∨ word = "infinity" then some (Double.infinity minus)
  else if body.any fun c => c == '+' || c == '-' then
    (dropUnderscores? false body).bind fun cs =>
      if (cs.head?.map fun c => c == '+' || c == '-').getD true then none
      else (Number.DecimalText.read? cs).map fun d => { d with minus := minus }.toDouble
  else
    (dropUnderscores? false body).bind fun cs =>
      (Number.DecimalText.read? cs).map fun d => { d with minus := minus }.toDouble

def fitBoolean : Value → Option Value
  | .null => some .null
  | .boolean b => some (.boolean b)
  | .integer n => if n = 0 ∨ n = 1 then some (.integer n) else none
  | .float x =>
    if x.compareInt? 0 = some .eq then some (.integer 0)
    else if x.compareInt? 1 = some .eq then some (.integer 1)
    else none
  | _ => none

def fitFloat : Value → Option Value
  | .null => some .null
  | .boolean b => (Double.ofInt? (if b then 1 else 0)).map .float
  | .integer n => (Double.ofInt? n).map .float
  | .float x => some (.float x)
  | .text s => (readFloatText? s).map .float
  | .bytes b => (String.fromUTF8? (ByteArray.mk b.toArray)).bind fun s =>
    (readFloatText? s).map .float
  | _ => none

def fitMoment : Value → Option Value
  | .null => some .null
  | .moment t => some (.text t.storedText)
  | _ => none

def fitBytes : Value → Option Value
  | .null => some .null
  | .bytes b => some (.bytes b)
  | _ => none

/-- The value as its type passes it on; none if it does not fit. -/
def ParameterType.fit : ParameterType → Value → Option Value
  | boolean => fitBoolean
  | float => fitFloat
  | moment => fitMoment
  | bytes => fitBytes
  | plain => some

/-- The integers that a cell can hold. -/
def inCellRange (n : Int) : Bool :=
  decide (-(Nat.pow 2 63 : Int) ≤ n ∧ n < (Nat.pow 2 63 : Int))

/-- The cell that a value is stored as. -/
def storedCell : Value → Except QueryError Cell
  | .null => .ok .null
  | .boolean b => .ok (.integer (if b then 1 else 0))
  | .integer n => if inCellRange n then .ok (.integer n) else .error .integerRange
  | .float x => .ok (if x.isNaN then .null else .real x)
  | .text s => .ok (.text s)
  | .bytes b => .ok (.blob b)
  | .moment t => .ok (.text (t.text " "))
  | _ => .error .unstorableParameter

/-- The cell of a value under a type; null for one that cannot be bound. -/
def boundCell (t : ParameterType) (v : Value) : Cell :=
  match (t.fit v).map storedCell with
  | some (.ok c) => c
  | _ => .null

/-- The cell of a value that is compared with a column. -/
def singleCell (column : ColumnType) (v : Value) : Cell :=
  boundCell (.ofSingle column v) v

/-- The cells of a list that is compared with a column. -/
def severalCells (column : ColumnType) (vs : List Value) : List Cell :=
  vs.map (boundCell (.ofSeveral column vs))

/-- A value with the type that it is bound under. -/
structure Parameter where
  type : ParameterType
  value : Value

namespace Parameter

def single (c : ColumnRef) (v : Value) : Parameter := ⟨.ofSingle c.column.type v, v⟩

def several (c : ColumnRef) (vs : List Value) : List Parameter :=
  vs.map fun v => ⟨.ofSeveral c.column.type vs, v⟩

def fits (p : Parameter) : Bool := (p.type.fit p.value).isSome

/-- The cell of a parameter that fits. -/
def cell (p : Parameter) : Except QueryError Cell :=
  match p.type.fit p.value with
  | some v => storedCell v
  | none => .error .unfitParameter

end Parameter

def Operand.parameters (c : ColumnRef) : Operand → List Parameter
  | .value v => [Parameter.single c v]
  | .column _ => []

namespace Predicate

mutual

/-- The parameters of a predicate in the order of its text. -/
def parameters : Predicate → List Parameter
  | constant _ => []
  | compare _ l r => r.parameters l
  | truth _ _ _ => []
  | nullTest _ _ => []
  | like _ _ l r => r.parameters l
  | member _ l vs => Parameter.several l vs
  | between l low high => [Parameter.single l low, Parameter.single l high]
  | all ps => parametersOf ps
  | any ps => parametersOf ps
  | negation p => parameters p

def parametersOf : List Predicate → List Parameter
  | [] => []
  | p :: ps => parameters p ++ parametersOf ps

end

end Predicate

def Source.parameters : Source → List Parameter
  | table _ _ _ => []
  | join left right _ on => left.parameters ++ right.parameters ++ on.parameters

namespace Select

/-- The parameters of a selection in the order of its text. -/
def parameters (s : Select) : List Parameter :=
  s.sources.flatMap Source.parameters ++ Predicate.parametersOf s.conditions ++
    (s.limit.toList ++ s.offset.toList).map fun n => ⟨.plain, .integer n⟩

/-- The first parameter that cannot be stored decides the error. -/
def checkStorable (s : Select) : Except QueryError Unit :=
  s.parameters.forM fun p => p.cell.map fun _ => ()

end Select
end EntityQuery
