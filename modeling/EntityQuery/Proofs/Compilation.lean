import Mathlib.Data.List.TakeWhile
import EntityQuery.Proofs.Names
/-!
Drawing up the statements of a plan. A plan that has been built looks up only names that are registered
and reads only members that exist. So with distinct aliases both of its statements can be drawn up, apart
from one thing: the selection loads no relationship of one entity by two joins.
-/
namespace EntityQuery

theorem exists_mapM {ε α β : Type} {f : α → Except ε β} {xs : List α}
    (h : ∀ x ∈ xs, ∃ y, f x = .ok y) : ∃ ys, xs.mapM f = .ok ys := by
  induction xs with
  | nil => exact ⟨[], rfl⟩
  | cons x xs ih =>
    obtain ⟨y, hy⟩ := h x List.mem_cons_self
    obtain ⟨ys, hys⟩ := ih fun z hz => h z (List.mem_cons_of_mem x hz)
    refine ⟨y :: ys, ?_⟩
    rw [List.mapM_cons, hy, hys]
    rfl

theorem drop_eq_cons {α : Type} {xs rest : List α} {n : Nat} {x : α} (h : xs.drop n = x :: rest) :
    xs[n]? = some x ∧ xs.drop (n + 1) = rest := by
  constructor
  · rw [← List.head?_drop, h]
    rfl
  · rw [← List.drop_drop, h]
    rfl

/-- Induction along a list from its start on, with what is still to come behind a place. -/
theorem drop_induction {α : Type} {xs : List α} {motive : Nat → List α → Prop}
    (nil : ∀ place, motive place [])
    (cons : ∀ place x rest, xs[place]? = some x → motive (place + 1) rest → motive place (x :: rest)) :
    motive 0 xs := by
  have hfrom : ∀ {place : Nat} {rest : List α}, xs.drop place = rest → motive place rest := by
    intro place rest h
    induction rest generalizing place with
    | nil => exact nil place
    | cons x rest ih =>
      obtain ⟨hx, hrest⟩ := drop_eq_cons h
      exact cons place x rest hx (ih hrest)
  exact hfrom List.drop_zero

/-- A condition that can stand in a statement: none, or a predicate. -/
def JoinCondition.IsSuitable : JoinCondition → Prop
  | .unsuitable _ => False
  | _ => True

instance (c : JoinCondition) : Decidable c.IsSuitable :=
  match c with
  | .absent => isTrue trivial
  | .predicate _ => isTrue trivial
  | .unsuitable _ => isFalse id

theorem JoinClause.exists_predicate (j : JoinClause) (h : j.condition.IsSuitable) :
    ∃ predicate, j.predicate = .ok predicate := by
  unfold JoinClause.predicate
  cases hc : j.condition with
  | absent => exact ⟨_, rfl⟩
  | predicate q =>
    rcases j.conditionType with _ | _ | _ <;> exact ⟨_, rfl⟩
  | unsuitable v =>
    rw [hc] at h
    exact h.elim

namespace Plan

/-- The conditions of all joins can stand in a statement. -/
def SuitableConditions (p : Plan) : Prop := ∀ j ∈ p.joins, j.condition.IsSuitable

instance (p : Plan) : Decidable p.SuitableConditions :=
  inferInstanceAs (Decidable (∀ j ∈ p.joins, _))

/-- No two joins load the same relationship of the same source. -/
def LoadsApart (p : Plan) : Prop := (p.joins.map fun j => (j.sourceAlias, j.relation)).Nodup

instance (p : Plan) : Decidable p.LoadsApart := inferInstanceAs (Decidable (List.Nodup _))

variable {s : Schema} {p : Plan} {js : List ResolvedJoin}

/-- What the source alias of a join stands for. -/
theorem source_eq (hp : p.Layout s) {j : JoinClause} {k : Nat} {o : Occurrence}
    (ho : p.occurrence? k = some o) (hname : o.aliasName = j.sourceAlias) : p.source j = o := by
  unfold source
  rw [← hname, occurrence?_name hp ho]
  rfl

/-- Joins with suitable conditions can be followed to their parts. -/
theorem exists_resolveJoins (hp : p.Layout s) (hconditions : p.SuitableConditions) :
    ∃ js, p.resolveJoins = .ok js := by
  refine drop_induction (motive := fun place clauses => ∃ js, p.resolveJoinsFrom place clauses = .ok js)
    (fun _ => ⟨[], rfl⟩) fun place j clauses hj ⟨js, hjs⟩ => ?_
  obtain ⟨k, -, o, r, ho, hname, hr, -⟩ := hp.source place j hj
  obtain ⟨predicate, hpredicate⟩ := j.exists_predicate (hconditions j (List.mem_of_getElem? hj))
  obtain ⟨first, hfirst⟩ : ∃ first, p.resolveJoin place j = .ok first := by
    unfold resolveJoin relationship
    simp only [source_eq hp ho hname, hr, hpredicate, bind, Except.bind]
    exact ⟨_, rfl⟩
  refine ⟨first :: js, ?_⟩
  unfold resolveJoinsFrom
  simp only [hfirst, hjs, bind, Except.bind]

/-- Each target is loaded into the entity that its source alias stands for. -/
theorem checkLoads_of_layout (hp : p.Layout s) : p.checkLoads .empty 0 p.joins = .ok () := by
  refine drop_induction (motive := fun place clauses => ∀ loaded,
      (∀ a n, loaded.find? a = some n → ∃ o, p.names.find? a = some o ∧ o.position = n) →
        p.checkLoads loaded place clauses = .ok ())
    (fun _ _ _ => rfl) (fun place j clauses hj ih loaded hloaded => ?_) .empty
    fun a n h => by simp [OrderedMap.find?, OrderedMap.empty] at h
  have hnext : p.checkLoads (loaded.insert j.aliasName (place + 1)) (place + 1) clauses = .ok () :=
    ih _ fun a n ha => by
      by_cases hname : a = j.aliasName
      · subst hname
        rw [OrderedMap.find?_insert_self] at ha
        cases ha
        exact ⟨_, hp.join_name place j hj, rfl⟩
      · rw [OrderedMap.find?_insert_of_ne _ _ hname] at ha
        exact hloaded a n ha
  unfold checkLoads
  cases hsource : loaded.find? j.sourceAlias with
  | none => exact hnext
  | some n =>
    obtain ⟨o, ho, hposition⟩ := hloaded _ n hsource
    dsimp only
    rw [if_pos (by simp [source, ho, hposition])]
    exact hnext

/-- Each order clause of a built plan is resolved from a sort entry. -/
theorem exists_sortClause {operators : OperatorTable Operator} {root : Entity} {d : Descriptor}
    (h : (build s operators root d).plan = .ok p) {c : OrderClause} (hc : c ∈ p.orderBy) :
    ∃ name direction, p.sortClause? s name direction = some c := by
  obtain ⟨first, joined, filtered, hstart, hjoined, hfiltered, rfl⟩ := build_eq_ok h
  obtain ⟨predicates, -, rfl⟩ := addParameters_eq_ok hfiltered
  have hnone := (frame_joined hstart hjoined).2.2
  have hmem : c ∈ joined.orderBy ++ (d.sort.entries.filterMap fun e =>
      ({ joined with predicates := joined.predicates ++ predicates } : Plan).sortClause? s e.1 e.2) := hc
  rw [hnone, List.nil_append] at hmem
  obtain ⟨e, -, he⟩ := List.mem_filterMap.mp hmem
  exact ⟨e.1, e.2, he⟩

/-- The order clauses of a built plan sort by columns. -/
theorem exists_orderColumns {operators : OperatorTable Operator} {root : Entity} {d : Descriptor}
    (hd : d.DistinctAliases root) (h : (build s operators root d).plan = .ok p) :
    ∃ order, p.orderColumns = .ok order := by
  refine exists_mapM fun c hc => ?_
  obtain ⟨name, direction, hclause⟩ := exists_sortClause h hc
  obtain ⟨k, o, column, -, -, -, horder⟩ := orderColumn_of_sortClause? (layout_build hd h) hclause
  exact ⟨_, horder⟩

theorem not_startsAtReplacedRoot (hp : p.Layout s) {i : Nat} {j : JoinClause}
    (hj : p.joins[i]? = some j) : p.startsAtReplacedRoot j (p.joins.take i) = false := by
  obtain ⟨k, hk, o, r, ho, hname, -, -⟩ := hp.source i j hj
  have hsource := source_eq hp ho hname
  unfold startsAtReplacedRoot
  cases k with
  | zero =>
    cases ho
    rw [hsource]
    simp [rootOccurrence]
  | succ n =>
    obtain ⟨e, he, rfl⟩ := Option.map_eq_some_iff.mp ho
    have hearlier : e ∈ p.joins.take i := by
      rw [List.mem_take_iff_getElem]
      obtain ⟨hn, rfl⟩ := List.getElem?_eq_some_iff.mp he
      exact ⟨n, by omega, rfl⟩
    have hany : ((p.joins.take i).any fun e => e.aliasName == j.sourceAlias) = true :=
      List.any_eq_true.mpr ⟨e, hearlier, beq_iff_eq.mpr hname⟩
    rw [hany]
    rfl

theorem hasReplacedRoot_of_layout (hp : p.Layout s) : p.hasReplacedRoot [] p.joins = false := by
  refine drop_induction
    (motive := fun place clauses => p.hasReplacedRoot (p.joins.take place) clauses = false)
    (fun _ => rfl) fun place j clauses hj ih => ?_
  have htake : p.joins.take place ++ [j] = p.joins.take (place + 1) := by
    rw [List.take_add_one, hj]
    rfl
  rw [hasReplacedRoot, not_startsAtReplacedRoot hp hj, htake, ih]
  rfl

/-! ### Loads -/

theorem resolveJoinsFrom_sources {place : Nat} {clauses : List JoinClause}
    (h : p.resolveJoinsFrom place clauses = .ok js) :
    List.Forall₂ (fun j r => r.source = p.source j) clauses js := by
  induction clauses generalizing place js with
  | nil =>
    cases h
    exact .nil
  | cons j clauses ih =>
    unfold resolveJoinsFrom at h
    obtain ⟨first, hfirst, h⟩ := ok_of_bind h
    obtain ⟨rest, hrest, h⟩ := ok_of_bind h
    cases h
    refine .cons ?_ (ih hrest)
    unfold resolveJoin at hfirst
    obtain ⟨r, -, hfirst⟩ := ok_of_bind hfirst
    obtain ⟨predicate, -, hfirst⟩ := ok_of_bind hfirst
    cases hfirst
    rfl

theorem hasRepeatedPath_eq_false_iff : hasRepeatedPath js = false ↔
    (js.map fun j => (j.source.position, j.relationship.name)).Nodup := by
  induction js with
  | nil => simp [hasRepeatedPath]
  | cons j js ih =>
    rw [hasRepeatedPath, Bool.or_eq_false_iff, ih, List.map_cons, List.nodup_cons]
    refine and_congr_left fun _ => ?_
    rw [List.any_eq_false]
    simp only [Bool.and_eq_true, beq_iff_eq, List.mem_map, Prod.mk.injEq, not_exists, not_and]

/-- With distinct aliases, sources differ exactly if their names do. -/
theorem source_position_eq_iff (hp : p.Layout s) {j k : JoinClause} (hj : j ∈ p.joins)
    (hk : k ∈ p.joins) :
    (p.source j).position = (p.source k).position ↔ j.sourceAlias = k.sourceAlias := by
  obtain ⟨i, hi⟩ := List.mem_iff_getElem?.mp hj
  obtain ⟨i', hi'⟩ := List.mem_iff_getElem?.mp hk
  obtain ⟨n, -, o, -, ho, hname, -⟩ := hp.source i j hi
  obtain ⟨n', -, o', -, ho', hname', -⟩ := hp.source i' k hi'
  rw [source_eq hp ho hname, source_eq hp ho' hname', ← hname, ← hname']
  constructor
  · rw [occurrence?_position ho, occurrence?_position ho']
    rintro rfl
    cases ho.symm.trans ho'
    rfl
  · intro h
    have hsame := occurrence?_name hp ho
    rw [h, occurrence?_name hp ho'] at hsame
    cases hsame
    rfl

/-- The joins load the same relationship of one source twice exactly if their paths say so. -/
theorem hasRepeatedPath_iff (hp : p.Layout s) (hjoins : p.resolveJoins = .ok js) :
    hasRepeatedPath js = false ↔ p.LoadsApart := by
  have hkeys : js.map (fun j => (j.source.position, j.relationship.name)) =
      p.joins.map fun j => ((p.source j).position, j.relation) := by
    have hfollows := (resolveJoins_eq_ok hp hjoins).2
    have hsources := resolveJoinsFrom_sources hjoins
    clear hjoins
    generalize p.joins = clauses at hfollows hsources
    induction hsources with
    | nil => rfl
    | @cons j r clauses js hr _ ih =>
      cases hfollows with
      | cons hj hrest => rw [List.map_cons, List.map_cons, ih hrest, hr, hj.2.1]
  have hnodup : p.joins.Nodup := .of_map _ (List.nodup_cons.mp hp.distinct).2
  rw [hasRepeatedPath_eq_false_iff, hkeys, LoadsApart, List.nodup_map_iff_inj_on hnodup,
    List.nodup_map_iff_inj_on hnodup]
  refine forall₂_congr fun j hj => forall₂_congr fun k hk => ?_
  rw [Prod.mk.injEq, Prod.mk.injEq, source_position_eq_iff hp hj hk]

/-! ### Statements -/

/-- The selection of entities over joins that load apart. -/
theorem assemble_of_loadsApart (hp : p.Layout s) (hapart : p.LoadsApart)
    (hjoins : p.resolveJoins = .ok js) (order : List (ColumnRef × Direction)) :
    p.assemble js order = .ok
      ⟨{ columns := (p.loadTree js).columns, sources := [p.joined js],
         conditions := p.conditions, order := order, limit := p.limit, offset := p.offset },
        p.loadTree js⟩ := by
  have hst := (resolveJoins_eq_ok hp hjoins).1
  obtain ⟨sources, hsources, -⟩ := addJoins_nil hst
  obtain ⟨selection, hselection⟩ : ∃ selection, p.assemble js order = .ok selection := by
    unfold assemble
    rw [hasReplacedRoot_of_layout hp, (hasRepeatedPath_iff hp hjoins).mpr hapart]
    simp only [hsources, bind, Except.bind]
    exact ⟨_, rfl⟩
  rw [hselection, assemble_eq_ok hst hselection]

/-- Two loads of one relationship are refused. -/
theorem assemble_of_not_loadsApart (hp : p.Layout s) (hapart : ¬ p.LoadsApart)
    (hjoins : p.resolveJoins = .ok js) (order : List (ColumnRef × Direction)) :
    p.assemble js order = .error .repeatedPath := by
  obtain ⟨sources, hsources, -⟩ := addJoins_nil (resolveJoins_eq_ok hp hjoins).1
  have hrepeated : hasRepeatedPath js = true :=
    (Bool.not_eq_false _).mp fun h => hapart ((hasRepeatedPath_iff hp hjoins).mp h)
  unfold assemble
  rw [hasReplacedRoot_of_layout hp, hrepeated]
  simp only [hsources, bind, Except.bind]
  rfl

theorem exists_outline (hp : p.Layout s) (hconditions : p.SuitableConditions)
    (horder : ∃ order, p.orderColumns = .ok order) : ∃ o, p.outline = .ok o := by
  obtain ⟨js, hjs⟩ := exists_resolveJoins hp hconditions
  obtain ⟨order, horder⟩ := horder
  refine ⟨(js, order), ?_⟩
  unfold outline
  simp only [hjs, checkLoads_of_layout hp, horder, bind, Except.bind]

/-- The selection of keys over resolved joins. -/
theorem keySelection_of_resolveJoins (hp : p.Layout s) (hjoins : p.resolveJoins = .ok js) :
    p.keySelection = .ok
      { columns := p.root.keyColumns.map fun c => ⟨.entity 0, p.rootAlias, c⟩,
        sources := [p.joined js], conditions := p.conditions } := by
  have hst := (resolveJoins_eq_ok hp hjoins).1
  unfold keySelection assembleKeys
  simp only [hjoins, addJoins_singleton _ hst (owners_root p), bind, Except.bind]
  rfl

/-! ### Names and members -/

theorem checkedFields_eq_ok {e : Entity} {fields checked : List String}
    (h : checkedFields e fields = .ok checked) :
    checked = fields ∧ ∀ f ∈ fields, e.hasField f = true := by
  unfold checkedFields at h
  dsimp only at h
  split at h
  · rename_i hnone
    cases h
    simpa using hnone
  · cases h

theorem isSome_splitFirstDot? (a f : String) : (Text.splitFirstDot? (a ++ "." ++ f)).isSome := by
  have hdot : (a ++ "." ++ f).toList.dropWhile (· != '.') ≠ [] := by
    rw [Ne, List.dropWhile_eq_nil_iff]
    simp
  unfold Text.splitFirstDot?
  dsimp only
  split
  · contradiction
  · rfl

theorem mem_joinPaths {paths : OrderedMap RelationPath} {clauses : List JoinClause}
    {jp : JoinClause × RelationPath} (h : jp ∈ joinPaths paths clauses) : jp.1 ∈ clauses := by
  induction clauses generalizing paths with
  | nil => cases h
  | cons j clauses ih =>
    rcases List.mem_cons.mp h with rfl | h
    · exact List.mem_cons_self
    · exact List.mem_cons_of_mem j (ih h)

/-- The index with the field that a join is keyed by. -/
def withIndex (index : List (RelationPath × String)) (jp : JoinClause × RelationPath) :
    List (RelationPath × String) :=
  match jp.1.indexField? with
  | some field => insertPath jp.2 field index
  | none => index

theorem collectionIndex_eq (p : Plan) : p.collectionIndex =
    (joinPaths (OrderedMap.empty.insert p.rootAlias []) p.joins).foldl withIndex [] := rfl

/-- Articles with some of their comments, and with two other relations. -/
def commentedArticles (first second : String) : Descriptor where
  relations := .ofList
    [("comments",
      { joinAlias := some "a", indexBy := some "id", conditionType := some .narrows,
        condition := .condition (.compareValue .greater "a.id" (.integer 1)) }),
     (first, { joinAlias := some "b", fields := some ["id"] }),
     (second, { joinAlias := some "c" })]
  sort := .ofList [("a.id", .descending), ("title", .ascending)]

end Plan
end EntityQuery
