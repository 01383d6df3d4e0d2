import EntityQuery.Schema
import EntityQuery.Value
/-!
Graphs of loaded entities. An entity is identified by the head of its family and its key; it shows
the fields and the relationships that have been loaded.
-/
namespace EntityQuery

/-- The identity of an entity: the full name of the head of its family, and its key. -/
structure EntityKey where
  family : String
  cells : List Cell
  deriving DecidableEq, Repr

/-- What a loaded relationship leads to. -/
inductive Reference where
  | one (target : Option EntityKey)
  | many (targets : List EntityKey)
  deriving DecidableEq, Repr

/-- A loaded entity. -/
structure Node where
  key : EntityKey
  entity : Entity
  columns : List (String × Value) := []
  references : List (String × Reference) := []

/-- Loaded entities, each once. -/
structure Graph where
  nodes : List Node := []

namespace Node

def column? (n : Node) (field : String) : Option Value := n.columns.lookup field

def reference? (n : Node) (relation : String) : Option Reference := n.references.lookup relation

def setColumn (n : Node) (field : String) (v : Value) : Node :=
  { n with columns := n.columns.filter (·.1 != field) ++ [(field, v)] }

def setReference (n : Node) (relation : String) (r : Reference) : Node :=
  { n with references := n.references.filter (·.1 != relation) ++ [(relation, r)] }

/-- Adds the columns that are not loaded yet. -/
def addColumns (n : Node) (columns : List (String × Value)) : Node :=
  { n with columns := n.columns ++ columns.filter fun c => (n.column? c.1).isNone }

/-- A new entity, of which the discriminator of its family is known. -/
def fresh (key : EntityKey) (e : Entity) : Node :=
  { key := key, entity := e,
    columns := match e.family with
      | some f => [(f.column, .text f.kind)]
      | none => [] }

end Node

namespace Graph

def node? (g : Graph) (key : EntityKey) : Option Node := g.nodes.find? fun n => n.key == key

/-- Changes the entity under a key. -/
def modify (g : Graph) (key : EntityKey) (f : Node → Node) : Graph :=
  ⟨g.nodes.map fun n => if n.key == key then f n else n⟩

def add (g : Graph) (n : Node) : Graph := ⟨g.nodes ++ [n]⟩

end Graph

/-- The value that a cell shows through a column. -/
def Column.shown (c : Column) : Cell → Value
  | .null => .null
  | .integer n => if c.type = .boolean then .boolean (n != 0) else .integer n
  | .real x => .float x
  | .text s =>
    if c.type = .moment then ((Moment.ofText? s).map Value.moment).getD (.text s) else .text s
  | .blob b => .bytes b

end EntityQuery
