import EntityQuery.Predicate.Basic
import EntityQuery.OrderedMap
import EntityQuery.QueryError
import EntityQuery.Text.Case
import EntityQuery.Text.Identifier
/-!
Operators of filter keys. An operator makes a predicate from a column and a value; a table holds
operators under lower-case names, and two names are reserved and never in it.
-/
namespace EntityQuery

inductive Operator where
  | equal | notEqual | greater | greaterOrEqual | less | lessOrEqual
  | like | notLike | foldedLike | startsWith
  | isIn | isNotIn | between | isNull | isNotNull
  /-- The negation of `like`. -/
  | negatedLike
  /-- Null or not null, as the value tells. -/
  | nullCheck
  deriving DecidableEq, Repr

namespace Operator

/-- Comparison with a value; null and truth values are written into the predicate, and only
equality and inequality can take them. -/
def comparison (op : Comparison) (c : ColumnRef) (v : Value) : Except QueryError Predicate :=
  match v, op with
  | .null, .equal => .ok (.nullTest true c)
  | .null, .notEqual => .ok (.nullTest false c)
  | .boolean b, .equal => .ok (.truth true c b)
  | .boolean b, .notEqual => .ok (.truth false c b)
  | .constant b, .equal => .ok (.truth true c b)
  | .constant b, .notEqual => .ok (.truth false c b)
  | .null, _ => .error .unsuitableOperand
  | .boolean _, _ => .error .unsuitableOperand
  | .constant _, _ => .error .unsuitableOperand
  | v, op => .ok (.compare op c (.value v))

/-- Comparison with a pattern, which is neither null nor a truth value. -/
def pattern (negated : Bool) (style : PatternStyle) (c : ColumnRef) (v : Value) :
    Except QueryError Predicate :=
  match v with
  | .null => .error .unsuitableOperand
  | .boolean _ => .error .unsuitableOperand
  | .constant _ => .error .unsuitableOperand
  | v => .ok (.like negated style c (.value v))

def betweenBounds (c : ColumnRef) (v : Value) : Except QueryError Predicate :=
  match v.asItems with
  | [low, high] => .ok (.between c low high)
  | _ => .error .betweenBounds

/-- Whether a value reads as true in any case. -/
def readsTrue (v : Value) : Bool := Text.lower v.plain == "true"

/-- The predicate that an operator makes of a column and a value. -/
def apply : Operator → ColumnRef → Value → Except QueryError Predicate
  | equal => comparison .equal
  | notEqual => comparison .notEqual
  | greater => comparison .greater
  | greaterOrEqual => comparison .greaterOrEqual
  | less => comparison .less
  | lessOrEqual => comparison .lessOrEqual
  | like => pattern false .whole
  | notLike => pattern true .whole
  | foldedLike => pattern false .folded
  | startsWith => pattern false .start
  | isIn => fun c v => .ok (.member false c v.asItems)
  | isNotIn => fun c v => .ok (.member true c v.asItems)
  | between => betweenBounds
  | isNull => fun c _ => .ok (.nullTest true c)
  | isNotNull => fun c _ => .ok (.nullTest false c)
  | negatedLike => fun c v => (pattern false .whole c v).map Predicate.negate
  | nullCheck => fun c v => .ok (.nullTest (readsTrue v) c)

/-- The reserved name of the negated `like`. -/
def negatedLikeName : String := "nlike"

/-- The reserved name of the null check. -/
def nullCheckName : String := "null"

def reservedNames : List String := [negatedLikeName, nullCheckName]

end Operator

/-- Why an operator cannot be registered under a name. -/
inductive RegistrationError where
  | notIdentifier (name : String)
  | reserved (name : String)
  | taken (name : String)
  | notOperator (name : String)
  deriving DecidableEq, Repr

def RegistrationError.message : RegistrationError → String
  | notIdentifier name => "Operator name '" ++ name ++ "' is not a valid identifier"
  | reserved name => "Operator name '" ++ name ++ "' is reserved"
  | taken name => "Operator '" ++ name ++ "' is already registered"
  | notOperator name => "Operator '" ++ name ++ "' must map to a callable"

/-- Operators of any type under their names. -/
abbrev OperatorTable (α : Type) := OrderedMap α

namespace OperatorTable

variable {α : Type}

/-- Adds an operator under a name in lower case; none stands for something that is no operator. -/
def register (t : OperatorTable α) (name : String) (operator : Option α) :
    Except RegistrationError (OperatorTable α) :=
  let key := Text.lower name
  if !Text.isIdentifier key then .error (.notIdentifier name)
  else if Operator.reservedNames.contains key then .error (.reserved name)
  else if OrderedMap.contains t key then .error (.taken name)
  else match operator with
    | none => .error (.notOperator name)
    | some o => .ok (OrderedMap.insert t key o)

/-- The operator under a name in any case. -/
def get (t : OperatorTable α) (name : String) : Except QueryError α :=
  match OrderedMap.find? t (Text.lower name) with
  | some o => .ok o
  | none => .error (.unknownOperator name)

/-- The operators that every query can use. -/
def builtIn : OperatorTable Operator :=
  OrderedMap.ofList
    [("eq", .equal), ("neq", .notEqual), ("gt", .greater), ("gte", .greaterOrEqual),
     ("lt", .less), ("lte", .lessOrEqual), ("like", .like), ("notlike", .notLike),
     ("ilike", .foldedLike), ("in", .isIn), ("notin", .isNotIn), ("between", .between),
     ("isnull", .isNull), ("isnotnull", .isNotNull)]

/-- The operator that a filter key names: a reserved name exactly as written, else by the table. -/
def resolve (t : OperatorTable Operator) (name : String) : Except QueryError Operator :=
  if name = Operator.negatedLikeName then .ok .negatedLike
  else if name = Operator.nullCheckName then .ok .nullCheck
  else get t name

end OperatorTable
end EntityQuery
