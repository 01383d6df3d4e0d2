import EntityQuery.Logger
import EntityQuery.Reader
import EntityQuery.Repository
/-!
Resources: entities published for reading, each under three paths, for a list, for one record and
for a count.
-/
namespace EntityQuery

/-- A field that a resource shows, and the type that its values have to fit. -/
structure ShownField where
  name : String
  type : ColumnType
  optional : Bool := false
  deriving DecidableEq, Repr

/-- The value of a shown field; none if it does not fit. -/
def ShownField.read (f : ShownField) (v : Value) : Option Value :=
  match f.type, v with
  | _, .null => if f.optional then some .null else none
  | .integer, v => (Reader.integer v).toOption.map .integer
  | .text, v => (Reader.text v).toOption.map .text
  | .boolean, v => (Reader.boolean v).toOption.map .boolean
  | .float, .float x => some (.float x)
  | .float, v => v.integer?.bind fun n => (Double.ofInt? n).map .float
  | .moment, .moment t => some (.moment t)
  | .moment, _ => none

/-- What can be asked of a resource. -/
inductive Operation where
  | list | one | count
  deriving DecidableEq, Repr

namespace Operation

def all : List Operation := [list, one, count]

/-- The last segment of the path. -/
def segment : Operation → String
  | list => ""
  | one => "one"
  | count => "count"

/-- What an operation does, in a few words. -/
def summary (title : String) : Operation → String
  | list => "Query " ++ title ++ " records"
  | one => "Fetch a single " ++ title ++ " record"
  | count => "Count " ++ title ++ " records"

end Operation

/-- An entity published for reading: its short name, what it is called, the path that all its paths
start with, and the fields that are shown. -/
structure Resource where
  entity : String
  title : String
  place : String := ""
  fields : List ShownField := []
  deriving DecidableEq, Repr

namespace Resource

/-- The resource of an entity. It is called as given, or else by the table of the entity, so what
is no entity needs a name that is not empty. -/
def publish (s : Schema) (entity : String) (name : Option String) (place : String)
    (fields : List ShownField) : Except QueryError Resource :=
  let short := ((s.entity? entity).map Entity.name).getD "object"
  match name.filter fun n => !n.isEmpty, s.entity? entity with
  | some n, _ => .ok ⟨short, n, place, fields⟩
  | none, some e => .ok ⟨short, e.table, place, fields⟩
  | none, none => .error (.noMember short "__tablename__")

/-- The path that ends in a segment; an empty segment is left out. -/
def path (r : Resource) (segment : String) : String :=
  r.place ++ "/" ++ Text.lower r.title ++ (if segment.isEmpty then "" else "/" ++ segment)

def pathOf (r : Resource) (op : Operation) : String := r.path op.segment

/-- The name of the pages of a resource. -/
def pageName (r : Resource) : String := r.entity ++ "Page"

/-- The parts of a page. -/
def pageFields : List String := ["items", "total", "limit", "offset", "page", "pages", "has_next"]

/-- The paths of all operations with their summaries. -/
def routes (r : Resource) : List (String × String) :=
  Operation.all.map fun op => (r.pathOf op, op.summary r.title)

/-- The lines that announce the paths. -/
def announce (r : Resource) (l : Logger) : List LogLine :=
  l.sectionHeading ("Query routes for " ++ Style.entity.mark r.title) ++
    Operation.all.flatMap fun op => l.indented.line .info ("GET " ++ r.pathOf op)

/-- The stored value of a field of an entity. -/
def storedField (db : Database) (e : Entity) (key : EntityKey) (field : String) : Option Value :=
  (e.column? field).map fun c => c.shown ((Repository.storedRow db ⟨key, e, [], []⟩).get c.name)

/-- The shown fields of an item; none if one of them does not fit. An entity shows its stored
values, whatever fields were asked for. -/
def record? (s : Schema) (db : Database) (r : Resource) (item : Item) : Option Value :=
  let value (f : ShownField) : Option Value := match item with
    | .entity name key _ => (s.entity? name).bind fun e => storedField db e key f.name
    | .record (.mapping es) => Value.lookupText f.name es
    | .record _ => none
  (r.fields.mapM fun f => ((value f).bind f.read).map fun v => (Value.text f.name, v)).map .mapping

end Resource
end EntityQuery
