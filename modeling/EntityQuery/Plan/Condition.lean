import EntityQuery.Plan.Basic
import EntityQuery.Predicate.Operator
/-!
Building a join condition against the names that are registered when it is built.
-/
namespace EntityQuery

/-- The member of an occurrence that a qualified name stands for; the alias is the part before the
last dot. -/
def resolveQualified (names : OrderedMap Occurrence) (name : String) :
    Except QueryError ColumnRef :=
  let (aliasName, field) := Text.splitLastDot name
  match names.find? aliasName with
  | none => .error (.unregisteredAlias aliasName)
  | some o => match o.column? field with
    | some c => .ok c
    | none => .error (.noMember o.entity.name field)

/-- The predicate of a comparison with a value. -/
def ConditionOperator.withValue (op : ConditionOperator) (c : ColumnRef) (v : Value) :
    Except QueryError Predicate :=
  match op with
  | equal => Operator.equal.apply c v
  | notEqual => Operator.notEqual.apply c v
  | less => Operator.less.apply c v
  | greater => Operator.greater.apply c v
  | like => Operator.like.apply c v

/-- The predicate of a comparison with another column. -/
def ConditionOperator.withColumn (op : ConditionOperator) (c d : ColumnRef) : Predicate :=
  match op with
  | equal => .compare .equal c (.column d)
  | notEqual => .compare .notEqual c (.column d)
  | less => .compare .less c (.column d)
  | greater => .compare .greater c (.column d)
  | like => .like false .whole c (.column d)

mutual

/-- The predicate of a condition over names. -/
def Condition.build (names : OrderedMap Occurrence) : Condition Value → Except QueryError Predicate
  | .all parts => (buildParts names parts).map Predicate.conjunction
  | .any parts => (buildParts names parts).map Predicate.disjunction
  | .negation part => (build names part).map Predicate.negate
  | .compareValue op field v => (resolveQualified names field).bind fun c => op.withValue c v
  | .compareField op field other =>
    (resolveQualified names field).bind fun c =>
      (resolveQualified names other).map fun d => op.withColumn c d

def Condition.buildParts (names : OrderedMap Occurrence) :
    List (Condition Value) → Except QueryError (List Predicate)
  | [] => .ok []
  | c :: cs =>
    (Condition.build names c).bind fun p =>
      (Condition.buildParts names cs).map fun ps => p :: ps

end

/-- The join condition that a value of the descriptor gives. -/
def JoinCondition.ofValue (names : OrderedMap Occurrence) : Value → Except QueryError JoinCondition
  | .null => .ok .absent
  | .condition c => (c.build names).map .predicate
  | .constant b => .ok (.predicate (.constant b))
  | v => .ok (.unsuitable v)

end EntityQuery
