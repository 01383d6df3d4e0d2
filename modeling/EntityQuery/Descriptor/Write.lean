import EntityQuery.Descriptor.Basic
/-!
Writing a descriptor out as a mapping with every field in its snake case spelling.
-/
namespace EntityQuery

def optionalValue {α : Type} (write : α → Value) : Option α → Value
  | some a => write a
  | none => .null

def textList (xs : List String) : Value := .list (xs.map .text)

def OrderedMap.toValue {α : Type} (write : α → Value) (m : OrderedMap α) : Value :=
  .mapping (m.entries.map fun e => (.text e.1, write e.2))

/-- A record under text keys. -/
def recordValue (fields : List (String × Value)) : Value :=
  .mapping (fields.map fun f => (.text f.1, f.2))

def RelationOptions.toValue (o : RelationOptions) : Value :=
  recordValue
    [("join_alias", optionalValue .text o.joinAlias), ("join_type", .text o.joinType.text),
     ("join_condition", o.condition),
     ("join_condition_type", optionalValue (.text ∘ ConditionType.text) o.conditionType),
     ("index_by", optionalValue .text o.indexBy), ("fields", optionalValue textList o.fields)]

def naturalValue (n : Nat) : Value := .integer n

def CacheOptions.toValue (o : CacheOptions) : Value :=
  recordValue [("ttl", optionalValue naturalValue o.ttl), ("name", optionalValue .text o.name)]

/-- The mapping that writes a descriptor. -/
def Descriptor.toValue (d : Descriptor) : Value :=
  recordValue
    [("parameters", d.parameters.toValue id),
     ("relations", d.relations.toValue RelationOptions.toValue),
     ("sort", d.sort.toValue (.text ∘ Direction.text)),
     ("limit", optionalValue naturalValue d.limit), ("offset", optionalValue naturalValue d.offset),
     ("fields", textList d.fields), ("index_by", optionalValue .text d.indexBy),
     ("hydration", .text d.hydration.text), ("cache", optionalValue CacheOptions.toValue d.cache),
     ("count_available_rows", .boolean d.countAvailableRows)]

end EntityQuery
