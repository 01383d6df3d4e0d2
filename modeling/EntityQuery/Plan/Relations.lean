import EntityQuery.Plan.Condition
import EntityQuery.Log
/-!
The relation stage: each entry of the relations becomes one join, whose source is the root or the
target of an entry before it.
-/
namespace EntityQuery

/-- The fields of a projection, which all have to be fields of the entity. -/
def checkedFields (e : Entity) (fields : List String) : Except QueryError (List String) :=
  let unknown := fields.filter fun f => !e.hasField f
  if unknown.isEmpty then .ok fields else .error (.unknownFields unknown e.fullName)

namespace Plan

/-- The source alias and the relation of an entry. A key without a dot starts at the root; then the
first dot divides. -/
def splitRelation (p : Plan) (key : String) : String × String :=
  match Text.splitFirstDot? key with
  | some parts => parts
  | none => (Text.splitFirstDot? (p.rootAlias ++ "." ++ key)).getD (p.rootAlias, key)

/-- The alias of a join: as given, or else the last part of the key. -/
def joinAlias (key : String) (o : RelationOptions) : String :=
  match o.joinAlias with
  | some a => if a.isEmpty then Text.afterLastDot key else a
  | none => Text.afterLastDot key

/-- The target entity of an entry. -/
def relationTarget (s : Schema) (p : Plan) (key : String) : Except QueryError Entity :=
  let (source, relation) := p.splitRelation key
  match p.names.find? source with
  | none => .error (.unregisteredAlias source)
  | some o => match (o.entity.relationship? relation).bind fun r => s.entity? r.target with
    | none => .error (.notRelationship o.entity.fullName relation)
    | some target => .ok target

/-- The names once the target of a join is among them. -/
def withTarget (p : Plan) (aliasName : String) (target : Entity) : OrderedMap Occurrence :=
  p.names.insert aliasName ⟨p.joins.length + 1, aliasName, target⟩

/-- Refuses an index that is no field of the target. -/
def checkJoinIndex (p : Plan) (key : String) (o : RelationOptions) (target : Entity) :
    Except QueryError Unit :=
  match o.indexBy with
  | none => .ok ()
  | some f =>
    if target.hasField f then .ok ()
    else
      let (source, relation) := p.splitRelation key
      .error (.unknownJoinIndex (source ++ "." ++ relation) f target.fullName)

/-- The join of an entry, given its target and its condition. -/
def joinClause (p : Plan) (key : String) (o : RelationOptions) (target : Entity)
    (condition : JoinCondition) (fields : List String) : JoinClause :=
  let aliasName := joinAlias key o
  let (source, relation) := p.splitRelation key
  { aliasName := aliasName
    sourceAlias := source
    relation := relation
    target := target
    joinType := o.joinType
    condition := condition
    conditionType := if condition.isAbsent then none else o.conditionType
    indexBy := o.indexBy.bind fun f => if f.isEmpty then none else some (aliasName ++ "." ++ f)
    fields := fields }

/-- Adds the join of one entry. -/
def addRelation (s : Schema) (p : Plan) (key : String) (o : RelationOptions) :
    Except QueryError Plan := do
  let target ← p.relationTarget s key
  p.checkJoinIndex key o target
  let names := p.withTarget (joinAlias key o) target
  let condition ← JoinCondition.ofValue names o.condition
  let fields ← checkedFields target (o.fields.getD [])
  .ok { p with names := names, joins := p.joins ++ [p.joinClause key o target condition fields] }

/-- Adds the joins of entries up to the first one that fails: the plan so far, and the error. -/
def addRelations (s : Schema) (p : Plan) :
    List (String × RelationOptions) → Plan × Option QueryError
  | [] => (p, none)
  | (key, o) :: rest =>
    match p.addRelation s key o with
    | .ok q => addRelations s q rest
    | .error e => (p, some e)

end Plan

/-- The log line of a join. -/
def JoinClause.logLine (j : JoinClause) : LogLine :=
  ⟨.debug, j.joinType.text ++ " JOIN " ++ j.path ++ " " ++ j.aliasName⟩

end EntityQuery
