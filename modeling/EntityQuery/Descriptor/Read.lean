import EntityQuery.Descriptor.Basic
import EntityQuery.Reader
import EntityQuery.Text.Case
/-!
Reading a descriptor from a mapping. Relations may be a sequence of names, or name a join type
instead of options; sort entries may be a sequence of names; choices are read in any case.
-/
namespace EntityQuery

/-- Why a value is no descriptor. -/
inductive ReadError where
  /-- All faults, in the order of the fields. -/
  | faults (list : List Fault)
  /-- A shorthand sequence holds a value that cannot be a key. -/
  | unusableKey (kind : String)
  deriving DecidableEq, Repr

namespace Descriptor

open Reader

/-- A text in upper case; other values as they are. -/
def upperText : Value → Value
  | .text s => .text (Text.upper s)
  | v => v

def lowerText : Value → Value
  | .text s => .text (Text.lower s)
  | v => v

def joinAliasName : FieldName := ⟨"join_alias", "joinAlias"⟩
def joinTypeName : FieldName := ⟨"join_type", "joinType"⟩
def joinConditionName : FieldName := ⟨"join_condition", "joinCondition"⟩
def joinConditionTypeName : FieldName := ⟨"join_condition_type", "joinConditionType"⟩
def indexByName : FieldName := ⟨"index_by", "indexBy"⟩
def fieldsName : FieldName := ⟨"fields", "fields"⟩
def ttlName : FieldName := ⟨"ttl", "ttl"⟩
def nameName : FieldName := ⟨"name", "name"⟩
def parametersName : FieldName := ⟨"parameters", "parameters"⟩
def relationsName : FieldName := ⟨"relations", "relations"⟩
def sortName : FieldName := ⟨"sort", "sort"⟩
def limitName : FieldName := ⟨"limit", "limit"⟩
def offsetName : FieldName := ⟨"offset", "offset"⟩
def hydrationName : FieldName := ⟨"hydration", "hydration"⟩
def cacheName : FieldName := ⟨"cache", "cache"⟩
def countAvailableRowsName : FieldName := ⟨"count_available_rows", "countAvailableRows"⟩

/-- The fields of relation options, in order. -/
def relationNames : List FieldName :=
  [joinAliasName, joinTypeName, joinConditionName, joinConditionTypeName, indexByName, fieldsName]

def cacheNames : List FieldName := [ttlName, nameName]

/-- The fields of a descriptor, in order. -/
def fieldNames : List FieldName :=
  [parametersName, relationsName, sortName, limitName, offsetName, fieldsName, indexByName,
   hydrationName, cacheName, countAvailableRowsName]

def readJoinType (v : Value) : Checked JoinType := choice JoinType.all JoinType.text (upperText v)

def readConditionType (v : Value) : Checked (Option ConditionType) :=
  optional (choice ConditionType.all ConditionType.text) (upperText v)

def readRelationOptions : Value → Checked RelationOptions
  | .mapping r =>
    let joinAlias := field r joinAliasName (.ok none) (optional text)
    let joinType := field r joinTypeName (.ok .left) readJoinType
    let condition := field r joinConditionName (.ok .null) .ok
    let conditionType := field r joinConditionTypeName (.ok none) readConditionType
    let indexBy := field r indexByName (.ok none) (optional text)
    let fields := field r fieldsName (.ok none) (optional (list text))
    (Checked.both joinAlias <| Checked.both joinType <| Checked.both condition <|
      Checked.both conditionType <| Checked.both indexBy <| Checked.both fields <|
      extras relationNames r).map
      fun (a, t, c, ct, i, f, _) => ⟨a, t, c, ct, i, f⟩
  | _ => Checked.fail (.notRecord "RelationOptions")

def readCacheOptions : Value → Checked CacheOptions
  | .mapping r =>
    let ttl := field r ttlName (.ok none) (optional natural)
    let name := field r nameName (.ok none) (optional text)
    (Checked.both ttl <| Checked.both name <| extras cacheNames r).map fun (t, n, _) => ⟨t, n⟩
  | _ => Checked.fail (.notRecord "CacheOptions")

/-- The mapping of each item of a sequence to one value. -/
def sequenceAsMapping (value : Value) (items : List Value) : Except ReadError Value :=
  match items.findSome? Value.keyObstacle? with
  | some kind => .error (.unusableKey kind)
  | none => .ok (.mapping (Value.keyedOfList (items.map fun v => (v, value))))

/-- Relation options written short: none at all, or a join type alone. -/
def fullOptions : Value → Value
  | .null => .mapping []
  | .text s => .mapping [(.text joinTypeName.snake, .text s)]
  | v => v

/-- Relations as a mapping of names to options. -/
def fullRelations : Value → Except ReadError Value
  | .list xs => sequenceAsMapping (.mapping []) xs
  | .tuple xs => sequenceAsMapping (.mapping []) xs
  | .mapping es => .ok (.mapping (es.map fun e => (e.1, fullOptions e.2)))
  | v => .ok v

/-- Sort entries as a mapping of names to directions in upper case. -/
def fullSort : Value → Except ReadError Value
  | .list xs => sequenceAsMapping (.text Direction.ascending.text) xs
  | .tuple xs => sequenceAsMapping (.text Direction.ascending.text) xs
  | .mapping es => .ok (.mapping (es.map fun e => (e.1, upperText e.2)))
  | v => .ok v

/-- A mapping of texts with its values read one by one. -/
def readMap {α : Type} (read : Value → Checked α) : Value → Checked (OrderedMap α)
  | .mapping es => (entries read es).map OrderedMap.ofList
  | _ => Checked.fail .notMapping

/-- The entries of a record with one field's value rewritten. -/
def rewriteField (f : FieldName) (rewrite : Value → Except ReadError Value)
    (record : List (Value × Value)) : Except ReadError (List (Value × Value)) :=
  match f.find? record with
  | none => .ok record
  | some (spelling, v) => (rewrite v).map fun w => Value.insertKeyed (.text spelling) w record

/-- A descriptor from the entries of a record whose relations and sort are written out. -/
def readRecord (r : List (Value × Value)) : Checked Descriptor :=
  let parameters := field r parametersName (.ok .empty) (readMap .ok)
  let relations := field r relationsName (.ok .empty) (readMap readRelationOptions)
  let sort := field r sortName (.ok .empty) (readMap (choice Direction.all Direction.text))
  let limit := field r limitName (.ok none) (optional natural)
  let offset := field r offsetName (.ok none) (optional natural)
  let fields := field r fieldsName (.ok []) (list text)
  let indexBy := field r indexByName (.ok none) (optional text)
  let hydration := field r hydrationName (.ok .entities)
    (fun v => choice Hydration.all Hydration.text (lowerText v))
  let cache := field r cacheName (.ok none) (optional readCacheOptions)
  let countAvailableRows := field r countAvailableRowsName (.ok false) boolean
  (Checked.both parameters <| Checked.both relations <| Checked.both sort <|
    Checked.both limit <| Checked.both offset <| Checked.both fields <| Checked.both indexBy <|
    Checked.both hydration <| Checked.both cache <| Checked.both countAvailableRows <|
    extras fieldNames r).map
    fun (p, re, s, l, o, f, i, h, c, n, _) => ⟨p, re, s, l, o, f, i, h, c, n⟩

/-- The descriptor that a value writes. -/
def ofValue : Value → Except ReadError Descriptor
  | .mapping r =>
    match (rewriteField relationsName fullRelations r).bind (rewriteField sortName fullSort) with
    | .error e => .error e
    | .ok full =>
      match readRecord full with
      | .ok d => .ok d
      | .error fs => .error (.faults fs)
  | _ => .error (.faults [⟨.notRecord "QueryInfo", []⟩])

end Descriptor
end EntityQuery
