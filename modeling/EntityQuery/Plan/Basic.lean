import EntityQuery.Alias
import EntityQuery.Descriptor.Basic
import EntityQuery.Predicate.Basic
import EntityQuery.QueryError
/-!
Plans: the joins, predicates and order of one query, over names that stand for the entities in its
statement. A name stands for one occurrence of an entity; the root is at position zero and each
join brings the entity at the next position.
-/
namespace EntityQuery

/-- An entity at its place in a statement, under its alias. -/
structure Occurrence where
  position : Nat
  aliasName : String
  entity : Entity
  deriving DecidableEq, Repr

namespace Occurrence

/-- A field of an occurrence as a column of the statement. -/
def column? (o : Occurrence) (field : String) : Option ColumnRef :=
  (o.entity.column? field).map fun c => ⟨.entity o.position, o.aliasName, c⟩

def hasMember (o : Occurrence) (name : String) : Bool :=
  o.entity.hasField name || o.entity.hasAssociation name

end Occurrence

/-- The condition of a join: none, a predicate, or a value that is no predicate. -/
inductive JoinCondition where
  | absent
  | predicate (p : Predicate)
  | unsuitable (v : Value)

def JoinCondition.isAbsent : JoinCondition → Bool
  | absent => true
  | _ => false

/-- One join. Its target is the entity at position one plus its place among the joins. -/
structure JoinClause where
  aliasName : String
  sourceAlias : String
  relation : String
  target : Entity
  joinType : JoinType := .left
  condition : JoinCondition := .absent
  conditionType : Option ConditionType := none
  /-- Alias and field, with a dot between them, that the joined collection is keyed by. -/
  indexBy : Option String := none
  fields : List String := []

namespace JoinClause

/-- The joined path: source alias and relation. -/
def path (j : JoinClause) : String := j.sourceAlias ++ "." ++ j.relation

/-- The occurrence of the target when the join stands at a place. -/
def occurrence (j : JoinClause) (place : Nat) : Occurrence := ⟨place + 1, j.aliasName, j.target⟩

/-- The part of the index behind the first dot. -/
def indexField? (j : JoinClause) : Option String :=
  j.indexBy.map fun packed => ((Text.splitFirstDot? packed).map Prod.snd).getD packed

end JoinClause

/-- One entry of the order: a field under an alias. -/
structure OrderClause where
  aliasName : String
  field : String
  direction : Direction := .ascending
  deriving DecidableEq, Repr

def OrderClause.path (c : OrderClause) : String := c.aliasName ++ "." ++ c.field

/-- The parts of one query. -/
structure Plan where
  root : Entity
  names : OrderedMap Occurrence
  fields : List String := []
  joins : List JoinClause := []
  predicates : List Predicate := []
  orderBy : List OrderClause := []
  limit : Option Nat := none
  offset : Option Nat := none
  indexBy : Option String := none
  unresolvedSort : List (String × Direction) := []

namespace Plan

def rootOccurrence (root : Entity) : Occurrence := ⟨0, root.aliasName, root⟩

/-- The plan that selects a root entity and nothing else. -/
def ofRoot (root : Entity) : Plan where
  root := root
  names := OrderedMap.empty.insert root.aliasName (rootOccurrence root)

def rootAlias (p : Plan) : String := p.root.aliasName

/-- The first join under an alias. -/
def findJoin (p : Plan) (aliasName : String) : Option JoinClause :=
  p.joins.find? (·.aliasName == aliasName)

/-- The occurrence at a position. -/
def occurrence? (p : Plan) : Nat → Option Occurrence
  | 0 => some (rootOccurrence p.root)
  | place + 1 => (p.joins[place]?).map (·.occurrence place)

/-- The alias and the field that a path names; a bare field belongs to the root. -/
def splitPath (p : Plan) (path : String) : String × String :=
  let (aliasName, field) := Text.splitLastDot path
  (if aliasName.isEmpty then p.rootAlias else aliasName, field)

/-- The column that a path names. -/
def column (p : Plan) (path : String) : Except QueryError ColumnRef :=
  let (aliasName, field) := p.splitPath path
  match p.names.find? aliasName with
  | none => .error (.unknownAlias aliasName path)
  | some o => match o.column? field with
    | none => .error (.unknownField field o.entity.fullName)
    | some c => .ok c

/-- Relationships from the root to a joined entity. -/
abbrev RelationPath := List String

/-- The path of each join, in order: the path of its source and its relation. The path of an alias
is that of the last join before with this alias. -/
def joinPaths (paths : OrderedMap RelationPath) : List JoinClause → List (JoinClause × RelationPath)
  | [] => []
  | j :: rest =>
    let path := (paths.find? j.sourceAlias).getD [] ++ [j.relation]
    (j, path) :: joinPaths (paths.insert j.aliasName path) rest

/-- Puts a field under a path: in the place of the path, or at the end. -/
def insertPath (path : RelationPath) (field : String) :
    List (RelationPath × String) → List (RelationPath × String)
  | [] => [(path, field)]
  | (p, f) :: rest =>
    if p = path then (p, field) :: rest else (p, f) :: insertPath path field rest

/-- The fields that joined collections are keyed by, under their paths. -/
def collectionIndex (p : Plan) : List (RelationPath × String) :=
  let indexed := joinPaths (OrderedMap.empty.insert p.rootAlias []) p.joins
  indexed.foldl (fun index jp => match jp.1.indexField? with
    | some field => insertPath jp.2 field index
    | none => index) []

end Plan
end EntityQuery
