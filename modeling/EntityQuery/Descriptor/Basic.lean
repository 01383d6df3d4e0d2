import EntityQuery.OrderedMap
import EntityQuery.Value
/-!
Descriptors: what a read query asks for. Parameters, relations and sort entries keep the order in
which they were given.
-/
namespace EntityQuery

/-- Whether a join keeps rows without a match. -/
inductive JoinType where
  | left | inner
  deriving DecidableEq, Repr

/-- Whether a join condition narrows the link of the relationship or stands in its place. -/
inductive ConditionType where
  | narrows | replaces
  deriving DecidableEq, Repr

inductive Direction where
  | ascending | descending
  deriving DecidableEq, Repr

/-- Whether results are entities or nested records. -/
inductive Hydration where
  | entities | records
  deriving DecidableEq, Repr

def JoinType.text : JoinType → String
  | left => "LEFT"
  | inner => "INNER"

def JoinType.all : List JoinType := [left, inner]

def ConditionType.text : ConditionType → String
  | narrows => "WITH"
  | replaces => "ON"

def ConditionType.all : List ConditionType := [narrows, replaces]

def Direction.text : Direction → String
  | ascending => "ASC"
  | descending => "DESC"

def Direction.all : List Direction := [ascending, descending]

def Hydration.text : Hydration → String
  | entities => "object"
  | records => "array"

def Hydration.all : List Hydration := [entities, records]

/-- How one relation is joined. -/
structure RelationOptions where
  joinAlias : Option String := none
  joinType : JoinType := .left
  condition : Value := .null
  conditionType : Option ConditionType := none
  indexBy : Option String := none
  fields : Option (List String) := none

instance : Inhabited RelationOptions := ⟨{}⟩

/-- That results are cached: for how many seconds, and under which name if any. -/
structure CacheOptions where
  ttl : Option Nat := none
  name : Option String := none
  deriving DecidableEq, Repr

/-- Everything that one read query asks for. -/
structure Descriptor where
  parameters : OrderedMap Value := .empty
  relations : OrderedMap RelationOptions := .empty
  sort : OrderedMap Direction := .empty
  limit : Option Nat := none
  offset : Option Nat := none
  fields : List String := []
  indexBy : Option String := none
  hydration : Hydration := .entities
  cache : Option CacheOptions := none
  countAvailableRows : Bool := false

namespace Descriptor

instance : Inhabited Descriptor := ⟨{}⟩

def usesCache (d : Descriptor) : Bool := d.cache.isSome

end Descriptor
end EntityQuery
