import EntityQuery.Proofs.Layout
import EntityQuery.Proofs.Result
import EntityQuery.Proofs.Sources
import EntityQuery.Repository
/-!
The bounds and the index of a query stand apart from its matches: changing them leaves the joins, the
predicates and the order of its plan as they are.
-/
namespace EntityQuery

/-- The query for the matches between bounds in a list: without an index and not as a page. -/
def Descriptor.bounded (limit offset : Option Nat) (d : Descriptor) : Descriptor :=
  { d with limit := limit, offset := offset, indexBy := none, countAvailableRows := false }

/-- The query for all matches in a list. -/
def Descriptor.unbounded (d : Descriptor) : Descriptor := d.bounded none none

/-- The query for a page of its matches, read from the database. -/
def Descriptor.asPage (d : Descriptor) : Descriptor :=
  { d with countAvailableRows := true, cache := none }

namespace Plan

/-- A plan for the matches between bounds. -/
def bounded (limit offset : Option Nat) (p : Plan) : Plan :=
  { p with limit := limit, offset := offset, indexBy := none }

/-- A plan with other bounds and another index. -/
def framed (limit offset : Option Nat) (index : Option String) (p : Plan) : Plan :=
  { p with limit := limit, offset := offset, indexBy := index }

section Framed

variable (limit offset : Option Nat) (index : Option String)

theorem addRelation_framed (s : Schema) (p : Plan) (key : String) (o : RelationOptions) :
    (p.framed limit offset index).addRelation s key o =
      (p.addRelation s key o).map (framed limit offset index) := by
  have ht : (p.framed limit offset index).relationTarget s key = p.relationTarget s key := rfl
  have hi : ∀ target, (p.framed limit offset index).checkJoinIndex key o target =
      p.checkJoinIndex key o target := fun _ => rfl
  have hn : ∀ target, (p.framed limit offset index).withTarget (joinAlias key o) target =
      p.withTarget (joinAlias key o) target := fun _ => rfl
  unfold addRelation
  rw [ht]
  rcases p.relationTarget s key with e | target
  · rfl
  simp only [bind, Except.bind, hi, hn]
  rcases p.checkJoinIndex key o target with e | _
  · rfl
  rcases JoinCondition.ofValue (p.withTarget (joinAlias key o) target) o.condition with e | c
  · rfl
  rcases checkedFields target (o.fields.getD []) with e | fields
  · rfl
  · rfl

theorem withRelations_framed (s : Schema) (p : Plan) (relations : List (String × RelationOptions)) :
    (p.framed limit offset index).withRelations s relations =
      (p.withRelations s relations).map (framed limit offset index) := by
  have hadded : (p.framed limit offset index).addRelations s relations =
      ((p.addRelations s relations).1.framed limit offset index, (p.addRelations s relations).2) := by
    induction relations generalizing p with
    | nil => rfl
    | cons e rest ih =>
      unfold addRelations
      rw [addRelation_framed]
      cases p.addRelation s e.1 e.2 with
      | error e => rfl
      | ok q => exact ih q
  unfold withRelations
  rw [hadded]
  rcases p.addRelations s relations with ⟨joined, _ | e⟩ <;> rfl

theorem addParameters_framed (operators : OperatorTable Operator) (p : Plan)
    (parameters : List (String × Value)) :
    (p.framed limit offset index).addParameters operators parameters =
      (p.addParameters operators parameters).map (framed limit offset index) := by
  have hp : (fun e : String × Value =>
      (p.framed limit offset index).parameterPredicate operators e.1 e.2) =
        fun e => p.parameterPredicate operators e.1 e.2 := rfl
  unfold addParameters
  rw [hp]
  cases parameters.mapM fun e => p.parameterPredicate operators e.1 e.2 <;> rfl

end Framed

/-- Queries that differ in bounds and in indexes by fields of the root start from plans that differ so. -/
theorem start_framed {root : Entity} {d e : Descriptor} (hfields : e.fields = d.fields)
    (hd : ∀ f, d.indexBy = some f → root.hasField f = true)
    (he : ∀ f, e.indexBy = some f → root.hasField f = true) :
    start root e = (start root d).map (framed e.limit e.offset e.indexBy) := by
  have hnone : ∀ index : Option String, (∀ f, index = some f → root.hasField f = true) →
      (index.filter fun f => !root.hasField f) = none := fun index h => by
    cases index with
    | none => rfl
    | some f => simp [Option.filter, h f rfl]
  unfold start
  rw [hnone _ hd, hnone _ he, hfields]
  dsimp only
  cases checkedFields root d.fields <;> rfl

/-- Queries that differ in bounds and in indexes by fields of the root have plans that differ so. -/
theorem build_framed {s : Schema} {operators : OperatorTable Operator} {root : Entity} {d e : Descriptor}
    (hfields : e.fields = d.fields) (hrelations : e.relations = d.relations)
    (hparameters : e.parameters = d.parameters) (hsort : e.sort = d.sort)
    (hd : ∀ f, d.indexBy = some f → root.hasField f = true)
    (he : ∀ f, e.indexBy = some f → root.hasField f = true) :
    (build s operators root e).plan =
      (build s operators root d).plan.map (framed e.limit e.offset e.indexBy) := by
  rw [plan_build, plan_build]
  unfold beforeSort
  rw [start_framed hfields hd he, hrelations, hparameters, hsort]
  cases start root d with
  | error err => rfl
  | ok first =>
    simp only [Except.map, bind, Except.bind, withRelations_framed]
    cases first.withRelations s d.relations.entries with
    | error err => rfl
    | ok joined =>
      simp only [Except.map, addParameters_framed]
      cases joined.addParameters operators d.parameters.entries <;> rfl

/-- The index of a query that has a plan is a field of the root. -/
theorem hasField_of_indexBy {s : Schema} {operators : OperatorTable Operator} {root : Entity}
    {d : Descriptor} {p : Plan} (h : (build s operators root d).plan = .ok p) {f : String}
    (hf : d.indexBy = some f) : root.hasField f = true := by
  obtain ⟨first, -, -, hstart, -⟩ := build_eq_ok h
  unfold start at hstart
  cases hfield : root.hasField f with
  | true => rfl
  | false =>
    simp only [hf, Option.filter, hfield, Bool.not_false, if_true] at hstart
    cases hstart

variable (limit offset : Option Nat)

/-- The plan of a query for the matches between bounds. -/
theorem build_bounded {s : Schema} {operators : OperatorTable Operator} {root : Entity}
    {d : Descriptor} {p : Plan} (h : (build s operators root d).plan = .ok p) :
    (build s operators root (d.bounded limit offset)).plan = .ok (p.bounded limit offset) := by
  have hframed : (build s operators root (d.bounded limit offset)).plan =
      (build s operators root d).plan.map (framed limit offset none) :=
    build_framed rfl rfl rfl rfl (fun _ => hasField_of_indexBy h) (fun _ hf => by cases hf)
  rw [hframed, h]
  rfl

theorem joinsAs_bounded (p : Plan) : (p.bounded limit offset).JoinsAs p := ⟨rfl, rfl, rfl, rfl⟩

theorem resolveJoins_bounded (p : Plan) : (p.bounded limit offset).resolveJoins = p.resolveJoins :=
  (joinsAs_bounded limit offset p).resolveJoins

theorem staged_bounded {s : Schema} {p : Plan} {place : Nat} {js : List ResolvedJoin}
    (h : Staged s p place js) : Staged s (p.bounded limit offset) place js :=
  (joinsAs_bounded limit offset p).staged h

theorem outline_bounded (p : Plan) : (p.bounded limit offset).outline = p.outline :=
  (joinsAs_bounded limit offset p).outline rfl

/-- The selection of a plan between bounds. -/
theorem assemble_bounded {p : Plan} {js : List ResolvedJoin}
    {order : List (ColumnRef × Direction)} {selection : Selection}
    (h : p.assemble js order = .ok selection) :
    (p.bounded limit offset).assemble js order =
      .ok ⟨{ selection.select with limit := limit, offset := offset }, selection.tree⟩ := by
  have hconditions : (p.bounded limit offset).conditions = selection.select.conditions :=
    (frame_assemble h).1.symm
  rw [(joinsAs_bounded limit offset p).assemble, h, hconditions]
  rfl

/-- A plan whose joins are not indexed keys no collection. -/
theorem collectionIndex_nil {p : Plan} (h : ∀ j ∈ p.joins, j.indexBy = none) :
    p.collectionIndex = [] := by
  unfold collectionIndex
  generalize OrderedMap.empty.insert p.rootAlias [] = paths
  revert h
  generalize p.joins = js
  intro hjs
  induction js generalizing paths with
  | nil => rfl
  | cons j js ih =>
    have hj : j.indexField? = none := by
      rw [JoinClause.indexField?, hjs j List.mem_cons_self]
      rfl
    simp only [joinPaths, List.foldl_cons, hj]
    exact ih _ fun j hj => hjs j (List.mem_cons_of_mem _ hj)

/-- The plan of a query whose relations are not indexed keys no collection. -/
theorem collectionIndex_build {s : Schema} {operators : OperatorTable Operator} {root : Entity}
    {d : Descriptor} {p : Plan} (h : (build s operators root d).plan = .ok p)
    (hindex : ∀ e ∈ d.relations.entries, e.2.indexBy = none) : p.collectionIndex = [] := by
  refine collectionIndex_nil fun j hj => ?_
  obtain ⟨e, he, hasked⟩ := exists_of_forall₂ (build_joins h) hj
  exact hasked.indexBy (hindex e he)

end Plan

/-- Bounds that a parameter can hold. -/
def Storable (bound : Option Nat) : Prop := ∀ n ∈ bound, inCellRange n = true

/-- The parameter of a bound. -/
def Parameter.ofBound (n : Nat) : Parameter := ⟨.plain, .integer n⟩

theorem Parameter.cell_ofBound {n : Nat} (h : inCellRange n = true) :
    (ofBound n).cell = .ok (.integer n) := by
  change storedCell (.integer n) = _
  simp [storedCell, h]

/-- Between storable bounds a selection runs if it runs without bounds. -/
theorem Select.check_bounded {s : Schema} {q : Select} {limit offset : Option Nat}
    (hlimit : Storable limit) (hoffset : Storable offset) (hq : q.limit = none)
    (hq' : q.offset = none) (h : q.check s = .ok ()) :
    { q with limit := limit, offset := offset }.check s = .ok () := by
  have hbounds : ∀ n ∈ limit.toList ++ offset.toList, inCellRange (n : Int) = true := by
    intro n hn
    rcases List.mem_append.mp hn with hn | hn
    · exact hlimit n (by simpa using hn)
    · exact hoffset n (by simpa using hn)
  have hparameters : q.parameters =
      q.sources.flatMap Source.parameters ++ Predicate.parametersOf q.conditions := by
    unfold parameters
    rw [hq, hq']
    simp
  have hmore : { q with limit := limit, offset := offset }.parameters =
      q.parameters ++ (limit.toList ++ offset.toList).map Parameter.ofBound := by
    rw [hparameters]
    rfl
  have hfit : ∀ ns : List Nat, (ns.map Parameter.ofBound).all Parameter.fits = true := fun ns => by
    rw [List.all_map]
    exact List.all_eq_true.mpr fun _ _ => rfl
  have hstored : ∀ ns : List Nat, (∀ n ∈ ns, inCellRange (n : Int) = true) →
      (ns.map Parameter.ofBound).forM (fun p => p.cell.map fun _ => ()) = .ok () := by
    intro ns hns
    induction ns with
    | nil => rfl
    | cons n ns ih =>
      rw [List.map_cons, List.forM_eq_forM, List.forM_cons,
        Parameter.cell_ofBound (hns n List.mem_cons_self)]
      exact ih fun m hm => hns m (List.mem_cons_of_mem _ hm)
  have hresolves : { q with limit := limit, offset := offset }.resolves s = q.resolves s := rfl
  have hbound := hstored _ hbounds
  unfold check checkStorable at h ⊢
  rw [List.forM_eq_forM] at h hbound ⊢
  rw [hmore, hresolves, List.all_append, hfit, Bool.and_true, List.forM_append, hbound]
  split at h
  · cases h
  · split at h
    · cases h
    · rename_i hfits hnames
      rw [if_neg hfits, if_neg hnames, h]
      rfl

end EntityQuery
