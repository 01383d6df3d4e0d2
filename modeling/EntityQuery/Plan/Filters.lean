import EntityQuery.Plan.Basic
import EntityQuery.Predicate.Operator
/-!
The filter stage: each parameter becomes one predicate. A key that is a field of the root means
equality; any other key has a path and an operator with one colon between them.
-/
namespace EntityQuery

/-- The path and the operator of a filter key, if it has exactly one colon. -/
def splitFilterKey? (key : String) : Option (String × String) :=
  match Text.splitAt ':' key.toList with
  | [path, operator] => some (String.ofList path, String.ofList operator)
  | _ => none

namespace Plan

/-- The predicate of one parameter. -/
def parameterPredicate (operators : OperatorTable Operator) (p : Plan) (key : String) (v : Value) :
    Except QueryError Predicate :=
  match (rootOccurrence p.root).column? key with
  | some c => Operator.equal.apply c v
  | none => match splitFilterKey? key with
    | none => .error (.malformedParameter key)
    | some (path, name) => do
      let operator ← operators.resolve name
      let c ← p.column path
      operator.apply c v

/-- Adds the predicates of parameters in order; the first bad one fails. -/
def addParameters (operators : OperatorTable Operator) (p : Plan)
    (parameters : List (String × Value)) : Except QueryError Plan := do
  let predicates ← parameters.mapM fun (key, v) => p.parameterPredicate operators key v
  .ok { p with predicates := p.predicates ++ predicates }

end Plan
end EntityQuery
