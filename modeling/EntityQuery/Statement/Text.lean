import EntityQuery.Statement.Basic
import EntityQuery.Statement.Name
/-!
The text of statements. Parameters get names of a base and a number; the numbers of one base count
up through the text and are shared with the labels of repeated columns.
-/
namespace EntityQuery

/-- The text of a statement and the values of its parameters in the order of the text. -/
structure StatementText where
  sql : String
  parameters : List (String × Value)

/-- The numbers used so far for each base, and the parameters so far. -/
structure Naming where
  counts : List (String × Nat) := []
  parameters : List (String × Value) := []

namespace Naming

/-- The next name of a base. -/
def fresh (base : String) (n : Naming) : String × Naming :=
  let count := (n.counts.lookup base).getD 0 + 1
  (base ++ "_" ++ toString count,
   { n with counts := (base, count) :: n.counts.filter (·.1 != base) })

/-- The next name of a base as the name of a parameter. -/
def bind (base : String) (v : Value) (n : Naming) : String × Naming :=
  let (name, m) := n.fresh base
  (name, { m with parameters := m.parameters ++ [(name, v)] })

end Naming

/-- Text that is written while names are given. -/
abbrev Written (α : Type) := StateM Naming α

def freshName (base : String) : Written String := modifyGet (Naming.fresh base)

def parameterName (base : String) (v : Value) : Written String := modifyGet (Naming.bind base v)

def StatementText.ofWritten (w : Written String) : StatementText :=
  let (sql, n) := w.run {}
  ⟨sql, n.parameters⟩

namespace ColumnRef

def text (c : ColumnRef) : String := writtenName c.aliasName ++ "." ++ writtenName c.column.name

/-- The name of a parameter that is compared with a column. -/
def parameter (c : ColumnRef) (v : Value) : Written String := do
  let name ← parameterName c.column.name v
  return ":" ++ name

/-- The place of a list of values that is compared with a column. -/
def parameterList (c : ColumnRef) (vs : List Value) : Written String := do
  let name ← parameterName c.column.name (.list vs)
  return "(__[POSTCOMPILE_" ++ name ++ "])"

end ColumnRef

def Operand.text (c : ColumnRef) : Operand → Written String
  | .value v => c.parameter v
  | .column d => return d.text

def truthText (b : Bool) : String := if b then "true" else "false"

def lowerCall (s : String) : String := "lower(" ++ s ++ ")"

def likeText (negated : Bool) : String := if negated then " NOT LIKE " else " LIKE "

namespace Predicate

/-- Whether a part of a conjunction stands in parentheses. -/
def isDisjunction : Predicate → Bool
  | any _ => true
  | _ => false

def enclosed (s : String) : String := "(" ++ s ++ ")"

mutual

def text : Predicate → Written String
  | constant b => return truthText b
  | compare op l r => do
    let right ← r.text l
    return l.text ++ " " ++ op.symbol ++ " " ++ right
  | truth e l b => return l.text ++ (if e then " = " else " != ") ++ truthText b
  | nullTest n l => return l.text ++ (if n then " IS NULL" else " IS NOT NULL")
  | like n .whole l r => do
    let right ← r.text l
    return l.text ++ likeText n ++ right
  | like n .folded l r => do
    let right ← r.text l
    return lowerCall l.text ++ likeText n ++ lowerCall right
  | like n .start l r => do
    let right ← r.text l
    return l.text ++ likeText n ++ right ++ " || '%'"
  | member false l vs => do
    let right ← l.parameterList vs
    return l.text ++ " IN " ++ right
  | member true l vs => do
    let right ← l.parameterList vs
    return enclosed (l.text ++ " NOT IN " ++ right)
  | between l low high => do
    let a ← l.parameter low
    let b ← l.parameter high
    return l.text ++ " BETWEEN " ++ a ++ " AND " ++ b
  | all ps => do
    let parts ← conjunctTexts ps
    return " AND ".intercalate parts
  | any ps => do
    let parts ← disjunctTexts ps
    return " OR ".intercalate parts
  | negation p => do
    let part ← text p
    return "NOT " ++ enclosed part

/-- The parts of a conjunction; disjunctions among them in parentheses. -/
def conjunctTexts : List Predicate → Written (List String)
  | [] => return []
  | p :: ps => do
    let part ← text p
    let parts ← conjunctTexts ps
    return (if p.isDisjunction then enclosed part else part) :: parts

def disjunctTexts : List Predicate → Written (List String)
  | [] => return []
  | p :: ps => do
    let part ← text p
    let parts ← disjunctTexts ps
    return part :: parts

end

/-- The text of a predicate alone. -/
def statementText (p : Predicate) : StatementText := .ofWritten p.text

end Predicate

namespace Source

/-- A source as the right side of a join: a join of its own stands in parentheses. -/
def enclosedIfJoin (s : Source) (text : String) : String :=
  match s with
  | table _ _ _ => text
  | join _ _ _ _ => Predicate.enclosed text

def text : Source → Written String
  | table _ name aliasName => return writtenName name ++ " AS " ++ writtenName aliasName
  | join left right outer on => do
    let l ← left.text
    let r ← right.text
    let c ← on.text
    return l ++ (if outer then " LEFT OUTER JOIN " else " JOIN ") ++ right.enclosedIfJoin r ++
      " ON " ++ c

end Source

namespace Select

/-- Columns in order; a name that was used before gets a label. -/
def columnTexts (used : List String) : List ColumnRef → Written (List String)
  | [] => return []
  | c :: cs => do
    let name := c.column.name
    if used.contains name then
      let label ← freshName name
      let rest ← columnTexts used cs
      return (c.text ++ " AS " ++ writtenName label) :: rest
    else
      let rest ← columnTexts (name :: used) cs
      return c.text :: rest

def orderText (c : ColumnRef × Direction) : String := c.1.text ++ " " ++ c.2.text

def textsOf {α : Type} (write : α → Written String) : List α → Written (List String)
  | [] => return []
  | x :: xs => do
    let t ← write x
    let ts ← textsOf write xs
    return t :: ts

def sourcesText (sources : List Source) : Written String := do
  let parts ← textsOf Source.text sources
  return " \nFROM " ++ ", ".intercalate parts

def conditionsText (conditions : List Predicate) : Written String := do
  let parts ← Predicate.conjunctTexts conditions
  return if parts.isEmpty then "" else " \nWHERE " ++ " AND ".intercalate parts

def orderTexts (order : List (ColumnRef × Direction)) : String :=
  if order.isEmpty then "" else " ORDER BY " ++ ", ".intercalate (order.map orderText)

def boundsText (limit offset : Option Nat) : Written String := do
  let limitText ← match limit, offset with
    | some n, _ => do
      let name ← parameterName "param" (.integer n)
      pure ("\n LIMIT :" ++ name)
    | none, some _ => pure "\n LIMIT -1"
    | none, none => pure ""
  let offsetText ← match offset with
    | some n => do
      let name ← parameterName "param" (.integer n)
      pure (" OFFSET :" ++ name)
    | none => pure ""
  return limitText ++ offsetText

def writtenColumns (s : Select) : Written String := do
  let columns ← columnTexts [] s.columns
  return ", ".intercalate columns

/-- The text after the columns. -/
def writtenRest (s : Select) : Written String := do
  let sources ← sourcesText s.sources
  let conditions ← conditionsText s.conditions
  let bounds ← boundsText s.limit s.offset
  return sources ++ conditions ++ orderTexts s.order ++ bounds

def statementText (s : Select) : StatementText :=
  .ofWritten do
    let columns ← s.writtenColumns
    let rest ← s.writtenRest
    return "SELECT " ++ columns ++ rest

/-- A column under its own name as a label. -/
def labelled (c : ColumnRef) : String := c.text ++ " AS " ++ writtenName c.column.name

/-- The text of the statement that counts the distinct rows of a selection of keys. -/
def countText (s : Select) : StatementText :=
  .ofWritten do
    let label ← freshName "count"
    let columns := ", ".intercalate (s.columns.map labelled)
    let rest ← s.writtenRest
    let aliasName ← freshName "anon"
    return "SELECT count(*) AS " ++ label ++ " \nFROM (SELECT DISTINCT " ++ columns ++ rest ++
      ") AS " ++ aliasName

end Select
end EntityQuery
