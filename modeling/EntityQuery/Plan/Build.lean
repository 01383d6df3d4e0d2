import EntityQuery.Plan.Relations
import EntityQuery.Plan.Filters
import EntityQuery.Plan.Sort
/-!
Building a plan from a descriptor. The stages run in a fixed order: bounds and projection of the
root, relations, parameters, sort; the sort comes last because it resolves against the joins.
-/
namespace EntityQuery

/-- The outcome of building a plan, and what was logged on the way. -/
structure Built where
  plan : Except QueryError Plan
  log : List LogLine

namespace Plan

/-- The plan of the root with its bounds, its index and its projection. -/
def start (root : Entity) (d : Descriptor) : Except QueryError Plan :=
  let p := ofRoot root
  match d.indexBy.filter fun f => !root.hasField f with
  | some f => .error (.unknownIndex f root.fullName)
  | none =>
    (checkedFields root d.fields).map fun fields =>
      { p with limit := d.limit, offset := d.offset, indexBy := d.indexBy, fields := fields }

/-- Attaches the order clauses of a sort. -/
def withSort (s : Schema) (p : Plan) (sort : List (String × Direction)) : Plan :=
  let r := p.resolveSort s sort
  { p with orderBy := p.orderBy ++ r.clauses, unresolvedSort := r.remaining }

/-- The log line that tells which sort entries were dropped, if any. -/
def droppedLines (p : Plan) : List LogLine :=
  if p.unresolvedSort.isEmpty then []
  else
    [⟨.debug, "Dropped unresolved sort fields for " ++ p.rootAlias ++ ": " ++
      ", ".intercalate (p.unresolvedSort.map Prod.fst)⟩]

/-- Builds the plan of a descriptor for a root entity. -/
def build (s : Schema) (operators : OperatorTable Operator) (root : Entity) (d : Descriptor) :
    Built :=
  match start root d with
  | .error e => ⟨.error e, []⟩
  | .ok p =>
    let (joined, failure) := p.addRelations s d.relations.entries
    let lines := joined.joins.map JoinClause.logLine
    match failure with
    | some e => ⟨.error e, lines⟩
    | none => match joined.addParameters operators d.parameters.entries with
      | .error e => ⟨.error e, lines⟩
      | .ok filtered =>
        let sorted := filtered.withSort s d.sort.entries
        ⟨.ok sorted, lines ++ sorted.droppedLines⟩

end Plan
end EntityQuery
