import EntityQuery.Fault
import EntityQuery.Text.Quoted
/-!
All the ways in which building or running a query can fail, each with its cause and its sentence.
-/
namespace EntityQuery

/-- The family that an error belongs to, which is all that callers branch on. -/
inductive ErrorKind where
  | invalidArgument
  | unknownOperator
  | missingKey
  | missingAttribute
  | wrongType
  | wrongValue
  | invalidExpression
  | invalidRequest
  | invalidParameter
  | unsupportedParameter
  | failedStatement
  | violatedConstraint
  | overflow
  | failedAssertion
  deriving DecidableEq, Repr

inductive QueryError where
  /-- The entity is not described by the schema. -/
  | unmappedEntity
  /-- The mapping is no descriptor. -/
  | invalidDescriptor (faults : List Fault)
  /-- A shorthand sequence of the descriptor holds a value that cannot be a key. -/
  | unusableKey (kind : String)
  /-- What was given to a repository operation is no mapping at all. -/
  | notDescriptor (operation : String)
  | unknownIndex (field entity : String)
  | unknownJoinIndex (relation field entity : String)
  | unknownFields (fields : List String) (entity : String)
  /-- An alias that no root or join has registered so far. -/
  | unregisteredAlias (aliasName : String)
  | notRelationship (entity relation : String)
  | malformedParameter (parameter : String)
  | unknownOperator (name : String)
  | unknownAlias (aliasName path : String)
  | unknownField (field entity : String)
  | betweenBounds
  /-- The operator cannot take a null or a truth value. -/
  | unsuitableOperand
  /-- The join condition is no predicate. -/
  | unsuitableCondition
  /-- An entity that stands under an alias has no such member. -/
  | noMember (entity member : String)
  /-- A loaded entity has no such attribute. -/
  | noAttribute (entity name : String)
  /-- The source of a join has lost its alias to a later one. -/
  | replacedSource
  /-- A join starts at an entity that has taken the place of the root. -/
  | replacedRoot
  /-- Two joins follow the same path of relationships. -/
  | repeatedPath
  /-- A join has the same entity on both sides. -/
  | selfJoin
  /-- A join condition does not tell which side the join continues. -/
  | undecidedJoin
  /-- A parameter does not fit its type. -/
  | unfitParameter
  /-- A parameter that no column can hold. -/
  | unstorableParameter
  /-- An integer parameter beyond 64 bits. -/
  | integerRange
  /-- A name in the statement that belongs to no or to several tables. -/
  | unresolvedName
  /-- A discriminator value that stands for no entity of the family. -/
  | unknownKind (kind : String)
  /-- A page count beyond the floating-point numbers. -/
  | pageRange
  /-- A text that names no direction. -/
  | notDirection (text : String)
  /-- A row that the constraints of its table refuse. -/
  | refusedRow
  deriving DecidableEq, Repr

namespace QueryError

def kind : QueryError → ErrorKind
  | unmappedEntity => .invalidArgument
  | invalidDescriptor _ => .invalidArgument
  | unusableKey _ => .wrongType
  | notDescriptor _ => .invalidArgument
  | unknownIndex _ _ => .invalidArgument
  | unknownJoinIndex _ _ _ => .invalidArgument
  | unknownFields _ _ => .invalidArgument
  | unregisteredAlias _ => .missingKey
  | notRelationship _ _ => .missingAttribute
  | malformedParameter _ => .invalidArgument
  | unknownOperator _ => .unknownOperator
  | unknownAlias _ _ => .invalidArgument
  | unknownField _ _ => .invalidArgument
  | betweenBounds => .invalidArgument
  | unsuitableOperand => .invalidExpression
  | unsuitableCondition => .invalidExpression
  | noMember _ _ => .missingAttribute
  | noAttribute _ _ => .missingAttribute
  | replacedSource => .missingAttribute
  | replacedRoot => .invalidExpression
  | repeatedPath => .invalidRequest
  | selfJoin => .invalidRequest
  | undecidedJoin => .invalidRequest
  | unfitParameter => .invalidParameter
  | unstorableParameter => .unsupportedParameter
  | integerRange => .overflow
  | unresolvedName => .failedStatement
  | unknownKind _ => .failedAssertion
  | pageRange => .overflow
  | notDirection _ => .wrongValue
  | refusedRow => .violatedConstraint

def message : QueryError → String
  | unmappedEntity => "<class 'object'> is not a mapped entity"
  | invalidDescriptor _ => "Invalid query information"
  | unusableKey kind => "unhashable type: '" ++ kind ++ "'"
  | notDescriptor operation =>
    "Repository." ++ operation ++
      " requires the first argument be a mapping or an instance of QueryInfo"
  | unknownIndex field entity =>
    "Cannot index by '" ++ field ++ "', it is not a field of " ++ entity
  | unknownJoinIndex relation field entity =>
    "Cannot index " ++ relation ++ " by '" ++ field ++ "', it is not a field of " ++ entity
  | unknownFields fields entity =>
    "Cannot select " ++ ", ".intercalate fields ++ ", not a field of " ++ entity
  | unregisteredAlias aliasName => Text.quoted aliasName
  | notRelationship entity relation => entity ++ "." ++ relation ++ " is not a relationship"
  | malformedParameter parameter =>
    "Invalid build parameters syntax for parameter " ++ parameter
  | unknownOperator name =>
    "Invalid expression called, the operator \"" ++ name ++ "\" does not exist."
  | unknownAlias aliasName path => "Unknown alias '" ++ aliasName ++ "' in '" ++ path ++ "'"
  | unknownField field entity => "'" ++ entity ++ "' has no field named '" ++ field ++ "'"
  | betweenBounds => "The between operator expects exactly two values"
  | unsuitableOperand => "The operator takes neither null nor a truth value"
  | unsuitableCondition => "The join condition is not a predicate"
  | noMember entity member =>
    "type object '" ++ entity ++ "' has no attribute '" ++ member ++ "'"
  | noAttribute entity name =>
    "'" ++ entity ++ "' object has no attribute '" ++ name ++ "'"
  | replacedSource => "_with_polymorphic_entities"
  | replacedRoot => "A join starts at an entity that replaced the root"
  | repeatedPath => "Two joins follow the same relationships"
  | selfJoin => "A join has the same entity on both sides"
  | undecidedJoin => "The join condition does not tell where the join continues"
  | unfitParameter => "A parameter does not fit its type"
  | unstorableParameter => "A parameter has a type that no column can hold"
  | integerRange => "Python int too large to convert to SQLite INTEGER"
  | unresolvedName => "A column name is unknown or ambiguous"
  | unknownKind kind => "No such polymorphic_identity " ++ Text.quoted kind ++ " is defined"
  | pageRange => "integer division result too large for a float"
  | notDirection text => Text.quoted text ++ " is not a valid SortDirection"
  | refusedRow => "The row violates a constraint of its table"

end QueryError
end EntityQuery
