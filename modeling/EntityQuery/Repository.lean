import EntityQuery.Builder
import EntityQuery.Descriptor.Read
import EntityQuery.Execution.Run
import EntityQuery.Graph.Load
import EntityQuery.Graph.Record
import EntityQuery.Page.Basic
import EntityQuery.Plan.Statement
import EntityQuery.ResultStore
/-!
Repositories: reading the entities of one root from a database as descriptors ask for them, by way
of a store of results where a descriptor asks for that.
-/
namespace EntityQuery

/-- One result: a nested record, or an entity with its identity and the record of what is loaded. -/
inductive Item where
  | record (v : Value)
  | entity (name : String) (key : EntityKey) (data : Value)

/-- What a fetch gives: at most one item, a list, or items under the values of a field. -/
inductive Fetched where
  | single (item : Option Item)
  | list (items : List Item)
  | indexed (entries : List (Value × Item))

instance : Inhabited Fetched := ⟨.single none⟩

/-- The answer to a fetch of many: the items alone, or as a page. -/
inductive Answer where
  | plain (items : Fetched)
  | page (p : Page Fetched)

/-- What an operation is given: a descriptor, or a value that may write one. -/
inductive QueryInput where
  | descriptor (d : Descriptor)
  | value (v : Value)

/-- The descriptor of an input. -/
def QueryInput.resolve (operation : String) (allowsNone : Bool) :
    QueryInput → Except QueryError Descriptor
  | descriptor d => .ok d
  | value (.mapping es) => match Descriptor.ofValue (.mapping es) with
    | .ok d => .ok d
    | .error (.faults fs) => .error (.invalidDescriptor fs)
    | .error (.unusableKey kind) => .error (.unusableKey kind)
  | value .null => if allowsNone then .ok {} else .error (.notDescriptor operation)
  | value _ => .error (.notDescriptor operation)

/-- A builder for the root, and a store if results can be stored. -/
structure Repository where
  builder : Builder
  store : Option (ResultStore Fetched) := none

/-- A repository at work: with what it has logged so far. -/
structure Session where
  repository : Repository
  log : List LogLine := []

/-- A step of work that can fail; what it logged and stored before stays. -/
abbrev Work (α : Type) := ExceptT QueryError (StateM Session) α

namespace Work

def emit (lines : List LogLine) : Work Unit :=
  modify fun s => { s with log := s.log ++ lines }

def ofResult {α : Type} : Except QueryError α → Work α
  | .ok a => pure a
  | .error e => throw e

/-- A result after the line that tells how long it took, be it an error or not. -/
def timed {α : Type} (label : String) (result : Except QueryError α) : Work α := do
  emit [⟨.debug, label ++ " " ++ elapsed⟩]
  ofResult result

end Work

namespace Repository

open Work

/-- The descriptor of an input and its plan. -/
def plan (s : Schema) (input : QueryInput) (operation : String) (allowsNone : Bool) :
    Work (Descriptor × Plan) := do
  let d ← ofResult (input.resolve operation allowsNone)
  let session ← get
  let (built, builder) := session.repository.builder.build s d
  modify fun s => { s with repository := { s.repository with builder := builder } }
  emit built.log
  let p ← ofResult built.plan
  return (d, p)

/-- The row that an entity was loaded from. -/
def storedRow (db : Database) (n : Node) : Row :=
  ((db.rows n.entity.table).find? fun row =>
    decide (n.entity.keyColumns.map (fun c => row.get c.name) = n.key.cells)).getD []

/-- Reads fields that were not loaded from the database. -/
def reader (db : Database) : FieldReader := fun n c => some (c.shown ((storedRow db n).get c.name))

/-- An entity as an item, with the record of all that is loaded in the end. -/
def entityItem (g : Graph) (key : EntityKey) : Except QueryError Item :=
  (g.record ⟨fun _ _ => none, []⟩ key).map fun (data, _) =>
    .entity (((g.node? key).map fun n => n.entity.name).getD "") key data

/-- The unfolding of records of a plan. -/
def unfolding (db : Database) (p : Plan) : Unfolding := ⟨reader db, p.collectionIndex⟩

/-- The roots as items. -/
def hydrate (db : Database) (p : Plan) (h : Hydration) (g : Graph) (roots : List EntityKey) :
    Except QueryError (List Item) :=
  match h with
  | .entities => roots.mapM (entityItem g)
  | .records => (unfoldItems (fun g k => g.record (unfolding db p) k) g roots).map fun (vs, _) =>
    vs.map .record

/-- The values of a field of all roots, which are loaded where they were not. -/
def indexKeys (db : Database) (field : String) (g : Graph) (roots : List EntityKey) :
    Except QueryError (List Value × Graph) :=
  unfoldItems (fun g k => g.readField (reader db) k field) g roots

/-- The roots as items under the values of a field. -/
def hydrateIndexed (db : Database) (p : Plan) (h : Hydration) (field : String) (g : Graph)
    (roots : List EntityKey) : Except QueryError (List (Value × Item)) :=
  match h with
  | .entities => do
    let (keys, g) ← indexKeys db field g roots
    let items ← roots.mapM (entityItem g)
    .ok (Value.keyedOfList (keys.zip items))
  | .records =>
    (unfoldKeyed (reader db) field (fun g k => g.record (unfolding db p) k) g roots).map
      fun (es, _) => Value.keyedOfList (es.map fun e => (e.1, .record e.2))

/-- The items of the roots, in the form that the plan asks for. -/
def shape (db : Database) (p : Plan) (h : Hydration) (g : Graph) (roots : List EntityKey) :
    Except QueryError Fetched :=
  match p.indexBy with
  | some field => (hydrateIndexed db p h field g roots).map .indexed
  | none => (hydrate db p h g roots).map .list

/-- A selection that has been outlined. -/
abbrev Outline := List Plan.ResolvedJoin × List (ColumnRef × Direction)

/-- Runs a selection: the identities of the roots, and the graph. -/
def load (s : Schema) (db : Database) (p : Plan) (o : Outline) :
    Except QueryError (List EntityKey × Graph) := do
  let selection ← p.assemble o.1 o.2
  let rows ← selection.select.run s db
  loadRows s selection.tree rows

def fetchLabel (p : Plan) : String := "fetch_all " ++ Style.aliasName.mark p.rootAlias

def countLabel (p : Plan) : String := "count " ++ Style.aliasName.mark p.rootAlias

/-- All matching roots. -/
def runAll (s : Schema) (db : Database) (p : Plan) (h : Hydration) (o : Outline) :
    Work Fetched := do
  let (roots, g) ← timed (fetchLabel p) (load s db p o)
  ofResult (shape db p h g roots)

/-- The matching root if there is exactly one. -/
def runOne (s : Schema) (db : Database) (p : Plan) (h : Hydration) (o : Outline) :
    Work Fetched := do
  let (roots, g) ← ofResult (load s db p o)
  match roots with
  | [key] => do
    let items ← ofResult (hydrate db p h g [key])
    return .single items.head?
  | _ => return .single none

/-- The number of matching roots. -/
def countRows (s : Schema) (db : Database) (p : Plan) : Except QueryError Nat := do
  let keys ← p.keySelection
  keys.runCount s db

def runCount (s : Schema) (db : Database) (p : Plan) : Work Nat :=
  timed (countLabel p) (countRows s db p)

/-- All that shapes the result beside the statement. -/
def keyParts (d : Descriptor) (p : Plan) : List Value :=
  let index := p.collectionIndex.mergeSort fun a b => pathOrder a.1 b.1 != .gt
  [.text d.hydration.text, (p.indexBy.map Value.text).getD .null,
   .list (index.map fun e => .tuple [.tuple (e.1.map .text), .text e.2])]
where
  /-- Order of paths by the first name in which they differ. -/
  pathOrder : List String → List String → Ordering
    | [], [] => .eq
    | [], _ :: _ => .lt
    | _ :: _, [] => .gt
    | a :: as, b :: bs => (Cell.compareText a b).then (pathOrder as bs)

/-- The key of a result in a store. -/
def resultKey (space : String) (d : Descriptor) (c : CacheOptions) (p : Plan) (o : Outline)
    (kind : String) : Except QueryError String :=
  match c.name.filter fun name => !name.isEmpty with
  | some name => .ok (ResultStore.namedKey space name kind)
  | none => (p.assemble o.1 o.2).map fun selection =>
    ResultStore.computedKey space selection.select.statementText kind (keyParts d p)

def uncachedWarning (b : Builder) : LogLine :=
  ⟨.warning, "Caching requested for " ++ Style.entity.mark b.root.fullName ++
    " but no result cache is configured"⟩

/-- Runs a query, by way of the store if the descriptor asks for it. -/
def execute (d : Descriptor) (p : Plan) (o : Outline) (kind : String) (run : Work Fetched) :
    Work Fetched := do
  match d.cache with
  | none => run
  | some c =>
    let session ← get
    match session.repository.store with
    | none =>
      emit [uncachedWarning session.repository.builder]
      run
    | some store =>
      let key ← ofResult (resultKey store.space d c p o kind)
      let (known, line) := store.get key
      emit [line]
      match known with
      | some value => return value
      | none =>
        let value ← run
        modify fun s =>
          { s with repository := { s.repository with
              store := s.repository.store.map fun r => r.set key value c.ttl } }
        return value

/-- Builds the plan without running it. -/
def explain (s : Schema) (input : QueryInput) : Work Plan := do
  let (_, p) ← plan s input "explain" true
  return p

/-- The one matching root; none if there are more or less. -/
def fetchOne (s : Schema) (db : Database) (input : QueryInput) : Work (Option Item) := do
  let (d, p) ← plan s input "fetch_one" false
  let o ← ofResult p.outline
  let fetched ← execute d p o "one" (runOne s db p d.hydration o)
  match fetched with
  | .single item => return item
  | .list items => return items.head?
  | .indexed entries => return entries.head?.map Prod.snd

/-- All matching roots, as a page if the descriptor asks for the total. -/
def fetchAll (s : Schema) (db : Database) (input : QueryInput) : Work Answer := do
  let (d, p) ← plan s input "fetch_all" false
  let o ← ofResult p.outline
  let fetched ← execute d p o "all" (runAll s db p d.hydration o)
  if d.countAvailableRows then
    let total ← runCount s db p
    return .page
      { items := fetched, total := total, limit := d.limit.map Int.ofNat,
        offset := d.offset.map Int.ofNat }
  else return .plain fetched

/-- The number of matching roots. -/
def count (s : Schema) (db : Database) (input : QueryInput) : Work Nat := do
  let (_, p) ← plan s input "count" true
  runCount s db p

/-- Runs an action on a repository that has logged nothing: its result, and the session after. -/
def run {α : Type} (r : Repository) (a : Work α) : Except QueryError α × Session :=
  (ExceptT.run a).run ⟨r, []⟩

end Repository
end EntityQuery
