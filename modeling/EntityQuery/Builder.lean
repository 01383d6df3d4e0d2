import EntityQuery.Plan.Build
import EntityQuery.Registry
/-!
Builders of plans for one root entity. A builder chooses its registry once, and every entity that
its builds look up is kept there.
-/
namespace EntityQuery

namespace Plan

/-- The targets that the relation stage looks up, in order, up to its first error. -/
def relationLookups (s : Schema) (p : Plan) : List (String × RelationOptions) → List Entity
  | [] => []
  | (key, o) :: rest =>
    match p.relationTarget s key with
    | .error _ => []
    | .ok target =>
      target :: (match p.addRelation s key o with
        | .ok q => relationLookups s q rest
        | .error _ => [])

/-- The targets that the sort stage looks up. -/
def sortLookups (s : Schema) (p : Plan) (sort : List (String × Direction)) : List Entity :=
  sort.filterMap fun e => do
    let (aliasName, _) ← Text.splitFirstDot? e.1
    let join ← p.findJoin aliasName
    p.sortTarget? s join

/-- All that a build looks up beside its root. -/
def lookups (s : Schema) (operators : OperatorTable Operator) (root : Entity) (d : Descriptor) :
    List Entity :=
  match start root d with
  | .error _ => []
  | .ok p =>
    let (joined, failure) := p.addRelations s d.relations.entries
    p.relationLookups s d.relations.entries ++
      (match failure, joined.addParameters operators d.parameters.entries with
       | none, .ok filtered => filtered.sortLookups s d.sort.entries
       | _, _ => [])

end Plan

/-- A builder for a root entity, with the operators that filters can use. -/
structure Builder where
  root : Entity
  operators : OperatorTable Operator
  usesGiven : Bool
  registries : Registries

namespace Builder

/-- The builder for an entity of the schema. -/
def ofName (s : Schema) (operators : OperatorTable Operator) (registries : Registries)
    (name : String) : Except QueryError Builder :=
  let usesGiven := registries.prefersGiven
  (Registry.get s (registries.chosen usesGiven) name).map fun (e, r) =>
    ⟨e, operators, usesGiven, registries.record usesGiven r⟩

/-- Builds the plan of a descriptor; the builder that comes back has kept all lookups. -/
def build (s : Schema) (b : Builder) (d : Descriptor) : Built × Builder :=
  let kept := (Plan.lookups s b.operators b.root d).foldl Registry.keep
    (b.registries.chosen b.usesGiven)
  (Plan.build s b.operators b.root d,
   { b with registries := b.registries.record b.usesGiven kept })

end Builder
end EntityQuery
