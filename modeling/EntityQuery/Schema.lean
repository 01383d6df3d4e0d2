import EntityQuery.Cell
import EntityQuery.Text.Cut
/-!
Entities described as data: columns, relationships, single-table families, and the tables that
hold the rows. The alias of a root entity is derived from its name.
-/
namespace EntityQuery

/-- The kinds of column. -/
inductive ColumnType where
  | integer | float | boolean | text | moment
  deriving DecidableEq, Repr

/-- A column: the field that shows it, its name in the table, and what it may hold. -/
structure Column where
  field : String
  name : String
  type : ColumnType
  key : Bool := false
  optional : Bool := false
  default : Cell := .null
  deriving DecidableEq, Repr

/-- How rows of a source and a target belong together. -/
inductive Link where
  /-- A column of the target holds the key of the source. -/
  | owns (key foreign : String)
  /-- A column of the source holds the key of the target. -/
  | refers (foreign key : String)
  /-- The rows of a link table hold the keys of both. -/
  | through (table sourceKey linkSource targetKey linkTarget : String)
  deriving DecidableEq, Repr

/-- A named relationship to a target entity; `many` tells a collection from a single entity. -/
structure Relationship where
  name : String
  target : String
  link : Link
  many : Bool
  deriving DecidableEq, Repr

/-- The place of an entity in a family that shares one table: the discriminator and its value. -/
structure Family where
  column : String
  kind : String
  deriving DecidableEq, Repr

/-- A mapped entity. `path` is its name inside `scope`, `root` the path of the entity at the head
of its family. -/
structure Entity where
  name : String
  scope : String
  path : String
  root : String
  table : String
  columns : List Column
  relationships : List Relationship
  family : Option Family := none
  deriving DecidableEq, Repr

/-- The columns of a table. -/
structure TableShape where
  name : String
  columns : List Column
  deriving DecidableEq, Repr

/-- The entities that descriptors can name and the tables they are stored in. -/
structure Schema where
  entities : List Entity
  tables : List TableShape
  deriving DecidableEq, Repr

namespace Entity

/-- The full name of an entity. -/
def fullName (e : Entity) : String := e.scope ++ "." ++ e.path

/-- The full name of the head of the family. -/
def rootName (e : Entity) : String := e.scope ++ "." ++ e.root

def column? (e : Entity) (field : String) : Option Column :=
  e.columns.find? (·.field == field)

def hasField (e : Entity) (field : String) : Bool := (e.column? field).isSome

def relationship? (e : Entity) (name : String) : Option Relationship :=
  e.relationships.find? (·.name == name)

def hasAssociation (e : Entity) (name : String) : Bool := (e.relationship? name).isSome

def keyColumns (e : Entity) : List Column := e.columns.filter (·.key)

def isFamilyHead (e : Entity) : Bool := e.path == e.root

end Entity

namespace Schema

def entity? (s : Schema) (name : String) : Option Entity := s.entities.find? (·.name == name)

def table? (s : Schema) (name : String) : Option TableShape := s.tables.find? (·.name == name)

/-- The member of a family that a discriminator value stands for. -/
def member? (s : Schema) (head : Entity) (kind : String) : Option Entity :=
  s.entities.find? fun e =>
    e.scope == head.scope && e.root == head.root &&
      (match e.family with
       | some f => f.kind == kind
       | none => false)

end Schema
end EntityQuery
