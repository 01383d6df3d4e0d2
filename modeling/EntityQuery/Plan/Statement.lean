import EntityQuery.Plan.LoadTree
import EntityQuery.Statement.Basic
/-!
The statements of a plan. A statement is drawn up in two steps: first the names are followed to what
they stand for, in the order of joins, loading and sorting; then the joins are put together.

A join continues the source that its left side is part of. An alias can be taken over by a later
join; then the left side may not be part of any source yet and starts one of its own.
-/
namespace EntityQuery

/-- The column of an entity under its name in the table. -/
def Entity.columnNamed (e : Entity) (name : String) : Column :=
  (e.columns.find? (·.name == name)).getD { field := name, name := name, type := .integer }

/-- A column of an occurrence under its name in the table. -/
def Occurrence.columnNamed (o : Occurrence) (name : String) : ColumnRef :=
  ⟨.entity o.position, o.aliasName, o.entity.columnNamed name⟩

/-- The table of an occurrence. -/
def Occurrence.source (o : Occurrence) : Source :=
  .table (.entity o.position) o.entity.table o.aliasName

/-- The predicate that a join adds to the link of its relationship. -/
inductive JoinPredicate where
  /-- The link of the relationship, narrowed by a predicate if there is one. -/
  | linked (extra : Option Predicate)
  /-- This predicate and no link. -/
  | replaced (p : Predicate)

namespace JoinClause

/-- The predicate of a join. A truth value is a predicate only where it narrows. -/
def predicate (j : JoinClause) : Except QueryError JoinPredicate :=
  match j.condition, j.conditionType with
  | .absent, _ => .ok (.linked none)
  | .predicate p, some .replaces => .ok (.replaced p)
  | .predicate p, _ => .ok (.linked (some p))
  | .unsuitable _, some .replaces => .error .unsuitableCondition
  | .unsuitable (.boolean b), _ => .ok (.linked (some (.constant b)))
  | .unsuitable _, _ => .error .unsuitableCondition

end JoinClause

namespace Plan

/-- What the source alias of a join stands for in the end. -/
def source (p : Plan) (j : JoinClause) : Occurrence :=
  (p.names.find? j.sourceAlias).getD (rootOccurrence p.root)

/-- The relationship that a join follows from its source. -/
def relationship (p : Plan) (j : JoinClause) : Except QueryError Relationship :=
  let o := p.source j
  match o.entity.relationship? j.relation with
  | some r => .ok r
  | none => .error (.noMember o.entity.name j.relation)

/-- A join that has been followed to its parts. -/
structure ResolvedJoin where
  source : Occurrence
  target : Occurrence
  relationship : Relationship
  predicate : JoinPredicate
  outer : Bool
  fields : List String

def resolveJoin (p : Plan) (place : Nat) (j : JoinClause) : Except QueryError ResolvedJoin := do
  let r ← p.relationship j
  let predicate ← j.predicate
  .ok ⟨p.source j, j.occurrence place, r, predicate, decide (j.joinType = .left), j.fields⟩

/-- All joins from a place on. -/
def resolveJoinsFrom (p : Plan) : Nat → List JoinClause → Except QueryError (List ResolvedJoin)
  | _, [] => .ok []
  | place, j :: js => do
    let r ← p.resolveJoin place j
    let rs ← resolveJoinsFrom p (place + 1) js
    .ok (r :: rs)

def resolveJoins (p : Plan) : Except QueryError (List ResolvedJoin) := p.resolveJoinsFrom 0 p.joins

/-- Each target is loaded into the entity that the last join before it brought under its source
alias; this has to be what the alias stands for in the end. -/
def checkLoads (p : Plan) (loaded : OrderedMap Nat) (place : Nat) :
    List JoinClause → Except QueryError Unit
  | [] => .ok ()
  | j :: js =>
    match loaded.find? j.sourceAlias with
    | some position =>
      if (p.source j).position = position then
        p.checkLoads (loaded.insert j.aliasName (place + 1)) (place + 1) js
      else .error .replacedSource
    | none => p.checkLoads (loaded.insert j.aliasName (place + 1)) (place + 1) js

/-- The column that an order clause sorts by. -/
def orderColumn (p : Plan) (c : OrderClause) : Except QueryError (ColumnRef × Direction) :=
  let o := (p.names.find? c.aliasName).getD (rootOccurrence p.root)
  match o.column? c.field with
  | some column => .ok (column, c.direction)
  | none => .error (.noMember o.entity.name c.field)

def orderColumns (p : Plan) : Except QueryError (List (ColumnRef × Direction)) :=
  p.orderBy.mapM p.orderColumn

/-- The first step of drawing up the selection. -/
def outline (p : Plan) :
    Except QueryError (List ResolvedJoin × List (ColumnRef × Direction)) := do
  let joins ← p.resolveJoins
  p.checkLoads .empty 0 p.joins
  let order ← p.orderColumns
  .ok (joins, order)

/-- The predicates by which a target follows from its source, and the link table between them. -/
inductive LinkPredicate where
  | direct (p : Predicate)
  | through (table : String) (toSource toTarget : Predicate)

def equality (l r : ColumnRef) : Predicate := .compare .equal l (.column r)

/-- The link of a relationship; `number` tells uses of one link table apart. -/
def linkPredicate (j : ResolvedJoin) (number : Nat) : LinkPredicate :=
  match j.relationship.link with
  | .owns key foreign =>
    .direct (equality (j.source.columnNamed key) (j.target.columnNamed foreign))
  | .refers foreign key =>
    .direct (equality (j.target.columnNamed key) (j.source.columnNamed foreign))
  | .through table sourceKey linkSource targetKey linkTarget =>
    let aliasName := table ++ "_" ++ toString number
    let column (name : String) : ColumnRef :=
      ⟨.link j.target.position, aliasName, { field := name, name := name, type := .integer }⟩
    .through table (equality (j.source.columnNamed sourceKey) (column linkSource))
      (equality (j.target.columnNamed targetKey) (column linkTarget))

/-- A predicate with another one behind it. -/
def narrowed (p : Predicate) (extra : Option Predicate) : Predicate :=
  match extra with
  | none => p
  | some e => Predicate.conjunction [p, e]

/-- The link table that a join uses, if any. -/
def ResolvedJoin.linkTable? (j : ResolvedJoin) : Option String :=
  match j.predicate, j.relationship.link with
  | .linked _, .through table _ _ _ _ => some table
  | _, _ => none

/-- A source continued by a join. -/
def continued (left : Source) (j : ResolvedJoin) (number : Nat) : Source :=
  match j.predicate with
  | .replaced p => .join left j.target.source j.outer p
  | .linked extra => match linkPredicate j number with
    | .direct p => .join left j.target.source j.outer (narrowed p extra)
    | .through table toSource toTarget =>
      let link := Source.table (.link j.target.position) table (table ++ "_" ++ toString number)
      if j.outer then
        .join left (.join link j.target.source false (narrowed toTarget extra)) true toSource
      else .join (.join left link false toSource) j.target.source false (narrowed toTarget extra)

/-- Replaces the first source that an owner is part of by its continuation. -/
def continueAt (owner : Owner) (f : Source → Source) : List Source → Option (List Source)
  | [] => none
  | s :: rest =>
    if s.owners.contains owner then some (f s :: rest)
    else (continueAt owner f rest).map (s :: ·)

/-- The sources that a join without a named left side can continue: the only one, or those that
hold all columns of the condition beside the target. -/
def candidateSources (sources : List Source) (j : ResolvedJoin) (p : Predicate) : List Nat :=
  let places := List.range sources.length
  if sources.length ≤ 1 || p.columns.isEmpty then places
  else
    let target := Owner.entity j.target.position
    let fitting := places.filter fun i => match sources[i]? with
      | some s => p.columns.all fun c => (target :: s.owners).contains c.owner
      | none => false
    if fitting.isEmpty then places else fitting

/-- Puts one join to the sources so far. -/
def addJoin (root : Occurrence) (sources : List Source) (number : Nat) (j : ResolvedJoin) :
    Except QueryError (List Source) :=
  let add (s : Source) : Source := continued s j number
  match j.predicate with
  | .replaced p =>
    if sources.isEmpty then .ok [add root.source]
    else match candidateSources sources j p with
      | [i] => .ok (sources.modify i add)
      | _ => .error .undecidedJoin
  | .linked _ =>
    if j.source.position = j.target.position then .error .selfJoin
    else .ok ((continueAt (.entity j.source.position) add sources).getD
      (sources ++ [add j.source.source]))

/-- Puts all joins together, in order; `used` lists the link tables used so far. -/
def addJoins (root : Occurrence) (sources : List Source) (used : List String) :
    List ResolvedJoin → Except QueryError (List Source)
  | [] => .ok sources
  | j :: js => do
    let table := j.linkTable?.toList
    let number := used.countP (table.contains ·) + 1
    let next ← addJoin root sources number j
    addJoins root next (used ++ table) js

/-- Adds the root as a source of its own where no join has brought it in. -/
def withRoot (root : Occurrence) (sources : List Source) : List Source :=
  if sources.any fun s => s.owners.contains (.entity root.position) then sources
  else sources ++ [root.source]

/-- The predicates of a selection: those of the plan, and that a root inside a family is of its
kind. -/
def conditions (p : Plan) : List Predicate :=
  p.predicates ++
    (match p.root.family with
     | some f =>
       if p.root.isFamilyHead then []
       else [.member false ((rootOccurrence p.root).columnNamed f.column) [.text f.kind]]
     | none => [])

/-- Whether a join starts at an entity that stands in the place of the root from the start. -/
def startsAtReplacedRoot (p : Plan) (j : JoinClause) (earlier : List JoinClause) : Bool :=
  !(earlier.any fun e => e.aliasName == j.sourceAlias) && (p.source j).position != 0

/-- Whether some join starts at an entity that replaced the root. -/
def hasReplacedRoot (p : Plan) (earlier : List JoinClause) : List JoinClause → Bool
  | [] => false
  | j :: js => p.startsAtReplacedRoot j earlier || p.hasReplacedRoot (earlier ++ [j]) js

/-- Whether two joins load the same relationship of the same source. -/
def hasRepeatedPath : List ResolvedJoin → Bool
  | [] => false
  | j :: js =>
    (js.any fun k =>
      k.source.position == j.source.position && k.relationship.name == j.relationship.name) ||
    hasRepeatedPath js

/-- What each row of the selection loads. -/
def loadTree (p : Plan) (joins : List ResolvedJoin) : LoadTree :=
  joins.foldl
    (fun t j => LoadTree.attach j.source.position j.relationship (.node j.target j.fields []) t)
    (.node (rootOccurrence p.root) p.fields [])

/-- A selection and what its rows load. -/
structure Selection where
  select : Select
  tree : LoadTree

/-- The second step of drawing up the selection. -/
def assemble (p : Plan) (joins : List ResolvedJoin) (order : List (ColumnRef × Direction)) :
    Except QueryError Selection := do
  if p.hasReplacedRoot [] p.joins then .error .replacedRoot
  else
    let root := rootOccurrence p.root
    let sources ← addJoins root [] [] joins
    if hasRepeatedPath joins then .error .repeatedPath
    else
      let tree := p.loadTree joins
      .ok ⟨{ columns := tree.columns, sources := withRoot root sources, conditions := p.conditions,
             order := order, limit := p.limit, offset := p.offset }, tree⟩

/-- The selection of a plan. -/
def selection (p : Plan) : Except QueryError Selection := do
  let (joins, order) ← p.outline
  p.assemble joins order

/-- The selection of the keys of the root, whose distinct rows are counted. -/
def assembleKeys (p : Plan) (joins : List ResolvedJoin) : Except QueryError Select := do
  let root := rootOccurrence p.root
  let sources ← addJoins root [root.source] [] joins
  .ok { columns := p.root.keyColumns.map fun c => ⟨.entity 0, root.aliasName, c⟩,
        sources := sources, conditions := p.conditions }

def keySelection (p : Plan) : Except QueryError Select := do
  let joins ← p.resolveJoins
  p.assembleKeys joins

end Plan
end EntityQuery
