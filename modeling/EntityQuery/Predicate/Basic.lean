import EntityQuery.Value
import EntityQuery.Schema
/-!
Predicates over the columns of the entities in a statement. Negation is pushed into the comparison
where it has an opposite, so that a negated predicate has one written form.
-/
namespace EntityQuery

/-- Who a column belongs to: an entity of the statement by its position, with the root at zero, or
the link table of the join at a position. -/
inductive Owner where
  | entity (position : Nat)
  | link (position : Nat)
  deriving DecidableEq, Repr

/-- A column of an entity or of a link table under its alias. -/
structure ColumnRef where
  owner : Owner
  aliasName : String
  column : Column
  deriving DecidableEq, Repr

inductive Comparison where
  | equal | notEqual | less | lessOrEqual | greater | greaterOrEqual
  deriving DecidableEq, Repr

namespace Comparison

def opposite : Comparison → Comparison
  | equal => notEqual
  | notEqual => equal
  | less => greaterOrEqual
  | lessOrEqual => greater
  | greater => lessOrEqual
  | greaterOrEqual => less

def symbol : Comparison → String
  | equal => "="
  | notEqual => "!="
  | less => "<"
  | lessOrEqual => "<="
  | greater => ">"
  | greaterOrEqual => ">="

/-- Whether a comparison holds between values in this order. -/
def holds : Comparison → Ordering → Bool
  | equal, o => o == .eq
  | notEqual, o => o != .eq
  | less, o => o == .lt
  | lessOrEqual, o => o != .gt
  | greater, o => o == .gt
  | greaterOrEqual, o => o != .lt

theorem opposite_opposite (c : Comparison) : c.opposite.opposite = c := by cases c <;> rfl

theorem holds_opposite (c : Comparison) (o : Ordering) : c.opposite.holds o = !c.holds o := by
  cases c <;> cases o <;> rfl

end Comparison

/-- How a pattern is compared with a text. -/
inductive PatternStyle where
  /-- The pattern as it is. -/
  | whole
  /-- Both sides in lower case. -/
  | folded
  /-- The pattern with anything behind it. -/
  | start
  deriving DecidableEq, Repr

/-- The right side of a comparison. -/
inductive Operand where
  | value (v : Value)
  | column (c : ColumnRef)

/-- A condition on one joined row. -/
inductive Predicate where
  | constant (b : Bool)
  | compare (op : Comparison) (left : ColumnRef) (right : Operand)
  /-- Comparison with a truth value written into the statement. -/
  | truth (isEqual : Bool) (left : ColumnRef) (b : Bool)
  | nullTest (isNull : Bool) (left : ColumnRef)
  | like (negated : Bool) (style : PatternStyle) (left : ColumnRef) (right : Operand)
  | member (negated : Bool) (left : ColumnRef) (values : List Value)
  | between (left : ColumnRef) (low high : Value)
  | all (parts : List Predicate)
  | any (parts : List Predicate)
  | negation (part : Predicate)

namespace Predicate

instance : Inhabited Predicate := ⟨constant true⟩

/-- The opposite of a predicate: that of its comparison, or else its negation. -/
def negate : Predicate → Predicate
  | compare op l r => compare op.opposite l r
  | truth e l b => truth (!e) l b
  | nullTest n l => nullTest (!n) l
  | like n s l r => like (!n) s l r
  | member n l vs => member (!n) l vs
  | constant b => constant (!b)
  | p => negation p

/-- The parts of a conjunction, or the predicate itself. -/
def conjuncts : Predicate → List Predicate
  | all ps => ps
  | p => [p]

def disjuncts : Predicate → List Predicate
  | any ps => ps
  | p => [p]

/-- Conjunction with the parts of inner conjunctions laid out flat. -/
def conjunction (ps : List Predicate) : Predicate :=
  match ps.flatMap conjuncts with
  | [p] => p
  | qs => all qs

def disjunction (ps : List Predicate) : Predicate :=
  match ps.flatMap disjuncts with
  | [p] => p
  | qs => any qs

/-- The column that an operand names, if any. -/
def Operand.columns : Operand → List ColumnRef
  | .value _ => []
  | .column c => [c]

mutual

/-- The columns that a predicate reads, from left to right. -/
def columns : Predicate → List ColumnRef
  | constant _ => []
  | compare _ l r => l :: Operand.columns r
  | truth _ l _ => [l]
  | nullTest _ l => [l]
  | like _ _ l r => l :: Operand.columns r
  | member _ l _ => [l]
  | between l _ _ => [l]
  | all ps => columnsOf ps
  | any ps => columnsOf ps
  | negation p => columns p

def columnsOf : List Predicate → List ColumnRef
  | [] => []
  | p :: ps => columns p ++ columnsOf ps

end

end Predicate
end EntityQuery
