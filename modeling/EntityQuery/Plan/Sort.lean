import EntityQuery.Plan.Basic
/-!
The sort stage: entries that name a field of the root or of a join become order clauses; the others
remain.
-/
namespace EntityQuery

/-- The order clauses of a sort, and its entries that could not be resolved. -/
structure SortResolution where
  clauses : List OrderClause := []
  remaining : List (String × Direction) := []
  deriving DecidableEq, Repr

namespace Plan

/-- The entity that a join leads to from whatever its source alias stands for. -/
def sortTarget? (s : Schema) (p : Plan) (join : JoinClause) : Option Entity := do
  let source ← p.names.find? join.sourceAlias
  let relationship ← source.entity.relationship? join.relation
  s.entity? relationship.target

/-- The order clause of one entry. The first dot divides alias and field, and the first join under
the alias counts. -/
def sortClause? (s : Schema) (p : Plan) (name : String) (direction : Direction) :
    Option OrderClause :=
  match Text.splitFirstDot? name with
  | none => if p.root.hasField name then some ⟨p.rootAlias, name, direction⟩ else none
  | some (aliasName, field) => do
    let join ← p.findJoin aliasName
    let target ← p.sortTarget? s join
    if target.hasField field then some ⟨aliasName, field, direction⟩ else none

/-- Resolves the entries of a sort in order. -/
def resolveSort (s : Schema) (p : Plan) (sort : List (String × Direction)) : SortResolution where
  clauses := sort.filterMap fun e => p.sortClause? s e.1 e.2
  remaining := sort.filter fun e => (p.sortClause? s e.1 e.2).isNone

end Plan
end EntityQuery
