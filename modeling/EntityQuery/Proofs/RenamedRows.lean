import EntityQuery.Graph.Load
import EntityQuery.Proofs.RenamedPlan
/-!
Selections under other aliases. They have the same parameters and the same rows, from which the same graph
is loaded: a row knows the owners of its columns and not their aliases.
-/
namespace EntityQuery

section

variable (f : Renaming)

def Source.renamed : Source → Source
  | table owner name a => table owner name (f a)
  | join left right outer on => join left.renamed right.renamed outer (on.renamed f)

/-- Columns of an order under other aliases. -/
def renamedOrder (order : List (ColumnRef × Direction)) : List (ColumnRef × Direction) :=
  order.map fun e => (e.1.renamed f, e.2)

/-- A selection under other aliases. -/
def Select.renamed (q : Select) : Select :=
  { q with
    columns := q.columns.map (ColumnRef.renamed f)
    sources := q.sources.map (Source.renamed f)
    conditions := q.conditions.map (Predicate.renamed f)
    order := renamedOrder f q.order }

mutual

/-- A load tree whose occurrences stand under other aliases. -/
def LoadTree.renamed : LoadTree → LoadTree
  | .node o fields children => .node (o.renamed f) fields (LoadTree.renamedBelow children)

def LoadTree.renamedBelow : List (Relationship × LoadTree) → List (Relationship × LoadTree)
  | [] => []
  | (r, t) :: rest => (r, LoadTree.renamed t) :: LoadTree.renamedBelow rest

end

/-! ### Rows -/

theorem Operand.sides_renamed (l : ColumnRef) (row : JoinedRow) (r : Operand) :
    (r.renamed f).sides (l.renamed f) row = r.sides l row := by
  cases r <;> rfl

theorem Operand.pattern_renamed (l : ColumnRef) (row : JoinedRow) (r : Operand) :
    (r.renamed f).pattern (l.renamed f) row = r.pattern l row := by
  cases r <;> rfl

mutual

theorem Predicate.eval_renamed (row : JoinedRow) :
    ∀ p : Predicate, (p.renamed f).eval row = p.eval row
  | .constant _ | .truth _ _ _ | .nullTest _ _ | .member _ _ _ | .between _ _ _ => rfl
  | .compare op l r => by
    unfold Predicate.renamed Predicate.eval
    rw [Operand.sides_renamed]
  | .like n style l r => by
    unfold Predicate.renamed Predicate.eval
    rw [Operand.pattern_renamed]
    rfl
  | .all ps => by
    unfold Predicate.renamed Predicate.eval
    exact Predicate.evalAll_renamed row ps
  | .any ps => by
    unfold Predicate.renamed Predicate.eval
    exact Predicate.evalAny_renamed row ps
  | .negation p => by
    unfold Predicate.renamed Predicate.eval
    rw [Predicate.eval_renamed row p]

theorem Predicate.evalAll_renamed (row : JoinedRow) :
    ∀ ps : List Predicate, evalAll row (Predicate.renamedAll f ps) = evalAll row ps
  | [] => rfl
  | p :: ps => by
    unfold Predicate.renamedAll Predicate.evalAll
    rw [Predicate.eval_renamed row p, Predicate.evalAll_renamed row ps]

theorem Predicate.evalAny_renamed (row : JoinedRow) :
    ∀ ps : List Predicate, evalAny row (Predicate.renamedAll f ps) = evalAny row ps
  | [] => rfl
  | p :: ps => by
    unfold Predicate.renamedAll Predicate.evalAny
    rw [Predicate.eval_renamed row p, Predicate.evalAny_renamed row ps]

end

theorem Predicate.holds_renamed (row : JoinedRow) (p : Predicate) :
    (p.renamed f).holds row = p.holds row := by
  unfold holds
  rw [eval_renamed]

theorem Source.rows_renamed (db : Database) (src : Source) : (src.renamed f).rows db = src.rows db := by
  induction src with
  | table owner name a => rfl
  | join left right outer on ihl ihr =>
    unfold renamed rows
    rw [ihl, ihr]
    simp only [Predicate.holds_renamed]

theorem productRows_renamed (db : Database) (sources : List Source) :
    productRows db (sources.map (Source.renamed f)) = productRows db sources := by
  induction sources with
  | nil => rfl
  | cons src sources ih => rw [List.map_cons, productRows, productRows, Source.rows_renamed, ih]

theorem compareRows_renamed (order : List (ColumnRef × Direction)) (a b : JoinedRow) :
    compareRows (renamedOrder f order) a b = compareRows order a b := by
  induction order with
  | nil => rfl
  | cons e order ih => exact congrArg (Ordering.then _) ih

theorem Select.rows_renamed (q : Select) (db : Database) : (q.renamed f).rows db = q.rows db := by
  have hconditions : ∀ row : JoinedRow, (q.conditions.map (Predicate.renamed f)).all (·.holds row) =
      q.conditions.all (·.holds row) := fun row => by
    rw [List.all_map]
    exact congrArg q.conditions.all (funext fun p => Predicate.holds_renamed f row p)
  unfold rows renamed
  simp only [productRows_renamed, compareRows_renamed, hconditions]

theorem Select.cells_renamed (q : Select) : (q.renamed f).cells = q.cells := by
  funext row
  unfold cells renamed
  rw [List.map_map]
  rfl

/-! ### Parameters -/

mutual

theorem Predicate.parameters_renamed :
    ∀ p : Predicate, (p.renamed f).parameters = p.parameters
  | .constant _ | .truth _ _ _ | .nullTest _ _ | .member _ _ _ | .between _ _ _ => rfl
  | .compare _ _ r | .like _ _ _ r => by cases r <;> rfl
  | .all ps | .any ps => by
    unfold Predicate.renamed Predicate.parameters
    exact Predicate.parametersOf_renamed ps
  | .negation p => by
    unfold Predicate.renamed Predicate.parameters
    exact Predicate.parameters_renamed p

theorem Predicate.parametersOf_renamed :
    ∀ ps : List Predicate, parametersOf (Predicate.renamedAll f ps) = parametersOf ps
  | [] => rfl
  | p :: ps => by
    unfold Predicate.renamedAll Predicate.parametersOf
    rw [Predicate.parameters_renamed p, Predicate.parametersOf_renamed ps]

end

theorem Source.parameters_renamed (src : Source) : (src.renamed f).parameters = src.parameters := by
  induction src with
  | table owner name a => rfl
  | join left right outer on ihl ihr =>
    unfold renamed parameters
    rw [ihl, ihr, Predicate.parameters_renamed]

theorem Select.parameters_renamed (q : Select) : (q.renamed f).parameters = q.parameters := by
  unfold parameters renamed
  simp only [List.flatMap_map, Source.parameters_renamed]
  rw [← Predicate.renamedAll_eq_map, Predicate.parametersOf_renamed]

/-! ### Loading -/

mutual

theorem LoadTree.load_renamed (s : Schema) (row : JoinedRow) :
    ∀ (t : LoadTree) (g : Graph), (t.renamed f).load s row g = t.load s row g
  | .node o fields children, g => by
    have hbelow := fun key isNew g => LoadTree.loadBelow_renamed s row children key isNew g
    unfold LoadTree.renamed LoadTree.load
    simp only [Occurrence.renamed, hbelow]

theorem LoadTree.loadBelow_renamed (s : Schema) (row : JoinedRow) :
    ∀ (cs : List (Relationship × LoadTree)) (key : EntityKey) (isNew : Bool) (g : Graph),
      loadBelow s row key isNew g (LoadTree.renamedBelow f cs) = loadBelow s row key isNew g cs
  | [], _, _, _ => rfl
  | (r, t) :: rest, key, isNew, g => by
    unfold LoadTree.renamedBelow LoadTree.loadBelow
    simp only [LoadTree.load_renamed s row t, LoadTree.loadBelow_renamed s row rest]

end

theorem loadRows_renamed (s : Schema) (t : LoadTree) : loadRows s (t.renamed f) = loadRows s t := by
  funext rows
  unfold loadRows
  simp only [LoadTree.load_renamed]

mutual

theorem LoadTree.columns_renamed : ∀ t : LoadTree,
    (t.renamed f).columns = t.columns.map (ColumnRef.renamed f)
  | .node o fields children => by
    unfold LoadTree.renamed LoadTree.columns
    rw [LoadTree.columnsBelow_renamed children, List.map_append]
    unfold LoadTree.ownColumns
    rw [List.map_map]
    rfl

theorem LoadTree.columnsBelow_renamed : ∀ cs : List (Relationship × LoadTree),
    columnsBelow (LoadTree.renamedBelow f cs) = (columnsBelow cs).map (ColumnRef.renamed f)
  | [] => rfl
  | (r, t) :: rest => by
    unfold LoadTree.renamedBelow LoadTree.columnsBelow
    rw [LoadTree.columns_renamed t, LoadTree.columnsBelow_renamed rest, List.map_append]

end

theorem LoadTree.renamedBelow_eq_map (cs : List (Relationship × LoadTree)) :
    LoadTree.renamedBelow f cs = cs.map fun c => (c.1, c.2.renamed f) := by
  induction cs with
  | nil => rfl
  | cons c cs ih => rw [renamedBelow, ih, List.map_cons]

theorem LoadTree.insertChild_renamed (e : Entity) (r : Relationship) (t : LoadTree)
    (cs : List (Relationship × LoadTree)) :
    insertChild e r (t.renamed f) (LoadTree.renamedBelow f cs) =
      LoadTree.renamedBelow f (insertChild e r t cs) := by
  simp only [renamedBelow_eq_map]
  unfold insertChild
  simp only [List.takeWhile_map, List.dropWhile_map, List.map_append, List.map_cons]
  rfl

mutual

theorem LoadTree.attach_renamed (parent : Nat) (r : Relationship) (target : LoadTree) :
    ∀ t : LoadTree, attach parent r (target.renamed f) (t.renamed f) =
      (attach parent r target t).renamed f
  | .node o fields children => by
    have hposition : (o.renamed f).position = o.position := rfl
    have hentity : (o.renamed f).entity = o.entity := rfl
    rw [LoadTree.renamed, LoadTree.attach, LoadTree.attach, hposition, hentity]
    by_cases h : o.position = parent
    · rw [if_pos h, if_pos h, LoadTree.insertChild_renamed, LoadTree.renamed]
    · rw [if_neg h, if_neg h, LoadTree.attachBelow_renamed parent r target children, LoadTree.renamed]

theorem LoadTree.attachBelow_renamed (parent : Nat) (r : Relationship) (target : LoadTree) :
    ∀ cs : List (Relationship × LoadTree),
      attachBelow parent r (target.renamed f) (LoadTree.renamedBelow f cs) =
        LoadTree.renamedBelow f (attachBelow parent r target cs)
  | [] => rfl
  | (q, t) :: rest => by
    unfold LoadTree.renamedBelow LoadTree.attachBelow
    rw [LoadTree.attach_renamed parent r target t, LoadTree.attachBelow_renamed parent r target rest]

end

end
end EntityQuery
