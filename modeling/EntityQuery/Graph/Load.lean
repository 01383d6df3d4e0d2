import EntityQuery.Execution.Evaluate
import EntityQuery.Graph.Basic
import EntityQuery.Plan.LoadTree
/-!
Loading joined rows into a graph. Rows that bring the same entity again add to it: fields that were
missing, further items of collections, and single targets where there is none yet.
-/
namespace EntityQuery

/-- The identity of the entity that a row brings; none if its whole key is null. -/
def entityKey? (e : Entity) (row : Row) : Option EntityKey :=
  let cells := e.keyColumns.map fun c => row.get c.name
  if cells.all Cell.isNull then none else some ⟨e.rootName, cells⟩

/-- The entity that a row of a family belongs to. -/
def memberEntity (s : Schema) (e : Entity) (row : Row) : Except QueryError Entity :=
  match e.family with
  | none => .ok e
  | some f => match row.get f.column with
    | .text kind => match s.member? e kind with
      | some m => .ok m
      | none => .error (.unknownKind kind)
    | _ => .ok e

/-- The fields that a row shows. -/
def shownColumns (columns : List Column) (row : Row) : List (String × Value) :=
  columns.map fun c => (c.field, c.shown (row.get c.name))

/-- Adds an item to a collection that does not hold it. -/
def addItem (items : List EntityKey) (item : Option EntityKey) : List EntityKey :=
  match item with
  | none => items
  | some k => if items.contains k then items else items ++ [k]

/-- The reference after a first row. -/
def firstReference (r : Relationship) (target : Option EntityKey) : Reference :=
  if r.many then .many (addItem [] target) else .one target

/-- The reference after a further row. -/
def furtherReference (r : Relationship) (known : Option Reference) (target : Option EntityKey) :
    Reference :=
  match known with
  | some (.many items) => .many (addItem items target)
  | some (.one t) => .one t
  | none => firstReference r target

mutual

/-- Loads what a row brings to a place in the load tree: the identity found there, and the graph
with it. -/
def LoadTree.load (s : Schema) (row : JoinedRow) (g : Graph) :
    LoadTree → Except QueryError (Option EntityKey × Graph)
  | .node o fields children =>
    let own := (List.lookup (.entity o.position) row).getD []
    match memberEntity s o.entity own with
    | .error e => .error e
    | .ok member => match entityKey? o.entity own with
      | none => .ok (none, g)
      | some key =>
        let shown := shownColumns (LoadTree.loadedColumns o.entity fields) own
        match g.node? key with
        | some _ =>
          (loadBelow s row key false (g.modify key (·.addColumns shown)) children).map
            fun h => (some key, h)
        | none =>
          (loadBelow s row key true (g.add ⟨key, member, shown, []⟩) children).map
            fun h => (some key, h)

/-- Loads the targets below an entity. -/
def LoadTree.loadBelow (s : Schema) (row : JoinedRow) (key : EntityKey) (isNew : Bool) (g : Graph) :
    List (Relationship × LoadTree) → Except QueryError Graph
  | [] => .ok g
  | (r, t) :: rest =>
    let opened := if isNew && r.many then
      g.modify key (·.setReference r.name (.many [])) else g
    match LoadTree.load s row opened t with
    | .error e => .error e
    | .ok (target, h) =>
      let place (n : Node) : Node :=
        let known := if isNew && !r.many then none else n.reference? r.name
        n.setReference r.name (furtherReference r known target)
      loadBelow s row key isNew (h.modify key place) rest

end

/-- Loads all rows: the identities of the roots, each once and in order, and the graph. -/
def loadRows (s : Schema) (t : LoadTree) :
    List JoinedRow → Except QueryError (List EntityKey × Graph) :=
  fun rows => rows.foldlM (fun (roots, g) row => do
    let (root, h) ← t.load s row g
    .ok (addItem roots root, h)) (([] : List EntityKey), ({} : Graph))

end EntityQuery
