import EntityQuery.Plan.Basic
/-!
Load trees: which entities each joined row brings, and into which relationship of which other
entity each of them goes.
-/
namespace EntityQuery

/-- An occurrence, the fields that are loaded (all if none are named), and the joined targets under
their relationships, in the order in which the entity declares them. -/
inductive LoadTree where
  | node (o : Occurrence) (fields : List String) (children : List (Relationship × LoadTree))

/-- Where a relationship stands among those of an entity. -/
def Entity.relationshipIndex (e : Entity) (name : String) : Nat :=
  (e.relationships.takeWhile (·.name != name)).length

namespace LoadTree

instance : Inhabited LoadTree := ⟨node ⟨0, "", ⟨"", "", "", "", "", [], [], none⟩⟩ [] []⟩

def occurrence : LoadTree → Occurrence
  | node o _ _ => o

def children : LoadTree → List (Relationship × LoadTree)
  | node _ _ cs => cs

/-- Puts a target before the first one whose relationship is declared later. -/
def insertChild (e : Entity) (r : Relationship) (t : LoadTree)
    (cs : List (Relationship × LoadTree)) : List (Relationship × LoadTree) :=
  let earlier := fun c : Relationship × LoadTree =>
    decide (e.relationshipIndex c.1.name ≤ e.relationshipIndex r.name)
  cs.takeWhile earlier ++ (r, t) :: cs.dropWhile earlier

mutual

/-- Puts a target under the entity at a position. -/
def attach (parent : Nat) (r : Relationship) (target : LoadTree) : LoadTree → LoadTree
  | node o fs cs =>
    if o.position = parent then node o fs (insertChild o.entity r target cs)
    else node o fs (attachBelow parent r target cs)

def attachBelow (parent : Nat) (r : Relationship) (target : LoadTree) :
    List (Relationship × LoadTree) → List (Relationship × LoadTree)
  | [] => []
  | (q, c) :: rest => (q, attach parent r target c) :: attachBelow parent r target rest

end

/-- Whether a field of an entity is loaded: keys and discriminators always are. -/
def loadsField (e : Entity) (fields : List String) (c : Column) : Bool :=
  fields.isEmpty || c.key || fields.contains c.field ||
    (match e.family with
     | some f => f.column == c.name
     | none => false)

/-- The loaded columns of an entity in the order of their declaration. -/
def loadedColumns (e : Entity) (fields : List String) : List Column :=
  e.columns.filter (loadsField e fields)

/-- The loaded columns of an occurrence. -/
def ownColumns (o : Occurrence) (fields : List String) : List ColumnRef :=
  (loadedColumns o.entity fields).map fun c => ⟨.entity o.position, o.aliasName, c⟩

mutual

/-- All columns that a row brings: those of the targets below, then the own ones. -/
def columns : LoadTree → List ColumnRef
  | node o fs cs => columnsBelow cs ++ ownColumns o fs

def columnsBelow : List (Relationship × LoadTree) → List ColumnRef
  | [] => []
  | (_, c) :: rest => columns c ++ columnsBelow rest

end

end LoadTree
end EntityQuery
