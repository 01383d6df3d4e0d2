import EntityQuery.Graph.Basic
import EntityQuery.Plan.Basic
/-!
Unfolding loaded entities into nested records. A record holds the loaded fields and relationships of
its entity and leaves out the entities on the way from the root, so that cycles end.
-/
namespace EntityQuery

/-- Reads a field that is not loaded: a value that is kept from then on, or none for a field that
reads as null. -/
abbrev FieldReader := Node → Column → Option Value

/-- The value of a field of an entity, and the graph after it was read. -/
def Graph.readField (read : FieldReader) (g : Graph) (key : EntityKey) (field : String) :
    Except QueryError (Value × Graph) :=
  match g.node? key with
  | none => .ok (.null, g)
  | some n => match n.column? field with
    | some v => .ok (v, g)
    | none => match n.entity.column? field with
      | none => .error (.noAttribute n.entity.name field)
      | some c => match read n c with
        | some v => .ok (v, g.modify key (·.setColumn field v))
        | none => .ok (.null, g)

/-- What a record is unfolded with: a reader of fields, and the fields that collections are keyed
by, under their paths. -/
structure Unfolding where
  read : FieldReader
  index : List (Plan.RelationPath × String) := []

/-- Entities with records, one after the other, while the graph is passed on. -/
abbrev Unfolded := Except QueryError (Value × Graph)

/-- The items of a collection as records. -/
def unfoldItems (record : Graph → EntityKey → Unfolded) :
    Graph → List EntityKey → Except QueryError (List Value × Graph)
  | g, [] => .ok ([], g)
  | g, k :: ks => do
    let (v, g) ← record g k
    let (vs, g) ← unfoldItems record g ks
    .ok (v :: vs, g)

/-- The items of a collection as records under the values of a field. -/
def unfoldKeyed (read : FieldReader) (field : String) (record : Graph → EntityKey → Unfolded) :
    Graph → List EntityKey → Except QueryError (List (Value × Value) × Graph)
  | g, [] => .ok ([], g)
  | g, k :: ks => do
    let (key, g) ← g.readField read k field
    let (v, g) ← record g k
    let (vs, g) ← unfoldKeyed read field record g ks
    .ok ((key, v) :: vs, g)

/-- A loaded relationship as an entry of a record; none if it only leads back to an entity on the
way. -/
def unfoldReference (u : Unfolding) (way : List EntityKey) (path : Plan.RelationPath)
    (record : Graph → EntityKey → Unfolded) (g : Graph) (reference : Reference) :
    Except QueryError (Option Value × Graph) :=
  match reference with
  | .one none => .ok (some .null, g)
  | .one (some k) =>
    if way.contains k then .ok (none, g) else (record g k).map fun (v, h) => (some v, h)
  | .many ks =>
    let items := ks.filter fun k => !way.contains k
    match u.index.lookup path with
    | none => (unfoldItems record g items).map fun (vs, h) => (some (.list vs), h)
    | some field =>
      (unfoldKeyed u.read field record g items).map fun (es, h) =>
        (some (.mapping (Value.keyedOfList es)), h)

/-- The loaded relationships of an entity as entries, in the order of their declaration. -/
def unfoldReferences
    (unfold : Plan.RelationPath → Graph → Reference → Except QueryError (Option Value × Graph))
    (path : Plan.RelationPath) (n : Node) :
    Graph → List Relationship → Except QueryError (List (Value × Value) × Graph)
  | g, [] => .ok ([], g)
  | g, r :: rs =>
    match n.reference? r.name with
    | none => unfoldReferences unfold path n g rs
    | some reference => do
      let (v, g) ← unfold (path ++ [r.name]) g reference
      let (es, g) ← unfoldReferences unfold path n g rs
      .ok ((v.map fun v => (Value.text r.name, v)).toList ++ es, g)

/-- The loaded fields of an entity as entries, in the order of their declaration. -/
def Node.fieldEntries (n : Node) : List (Value × Value) :=
  n.entity.columns.filterMap fun c => (n.column? c.field).map fun v => (.text c.field, v)

/-- The record of an entity, to at most the given depth; `way` are the entities from the root to
it, and `path` the relationships. -/
def unfoldTo (u : Unfolding) : Nat → List EntityKey → Plan.RelationPath → Graph → EntityKey →
    Unfolded
  | 0, _, _, g, _ => .ok (.mapping [], g)
  | depth + 1, way, path, g, key =>
    match g.node? key with
    | none => .ok (.mapping [], g)
    | some n =>
      let way := key :: way
      let reference (path : Plan.RelationPath) (g : Graph) (r : Reference) :=
        unfoldReference u way path (unfoldTo u depth way path) g r
      (unfoldReferences reference path n g n.entity.relationships).map fun (es, h) =>
        (.mapping (n.fieldEntries ++ es), h)

/-- The record of an entity. A way never meets an entity twice, so the number of entities bounds
the depth. -/
def Graph.record (u : Unfolding) (g : Graph) (key : EntityKey) : Unfolded :=
  unfoldTo u g.nodes.length [] [] g key

end EntityQuery
