import EntityQuery.OrderedMap
import EntityQuery.QueryError
import EntityQuery.Schema
/-!
Registries of entity descriptions: each entity is looked up in the schema once and kept.
-/
namespace EntityQuery

/-- The entities that have been looked up, in the order of their first lookup. -/
structure Registry where
  entries : OrderedMap Entity := .empty
  deriving Repr

namespace Registry

def empty : Registry := {}

def size (r : Registry) : Nat := r.entries.entries.length

def has (r : Registry) (name : String) : Bool := r.entries.contains name

def isEmpty (r : Registry) : Bool := r.entries.isEmpty

/-- Keeps an entity if it is not kept already. -/
def keep (r : Registry) (e : Entity) : Registry :=
  if r.has e.name then r else ⟨r.entries.insert e.name e⟩

/-- The entity of a name: the one kept, or else that of the schema, which is kept from then on. -/
def get (s : Schema) (r : Registry) (name : String) : Except QueryError (Entity × Registry) :=
  match r.entries.find? name with
  | some e => .ok (e, r)
  | none => match s.entity? name with
    | some e => .ok (e, ⟨r.entries.insert name e⟩)
    | none => .error .unmappedEntity

end Registry

/-- The registry that all builders share, and the one that is given to a builder, if any. -/
structure Registries where
  shared : Registry := .empty
  given : Option Registry := none
  deriving Repr

namespace Registries

/-- Whether a builder goes through the given registry: an empty one counts as none. -/
def prefersGiven (r : Registries) : Bool := (r.given.map fun g => !g.isEmpty).getD false

/-- The registry that lookups go through. -/
def chosen (usesGiven : Bool) (r : Registries) : Registry :=
  if usesGiven then r.given.getD r.shared else r.shared

/-- The registries after lookups through the chosen one. -/
def record (usesGiven : Bool) (r : Registries) (after : Registry) : Registries :=
  if usesGiven then { r with given := r.given.map fun _ => after } else { r with shared := after }

end Registries
end EntityQuery
