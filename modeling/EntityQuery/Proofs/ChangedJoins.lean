import EntityQuery.Proofs.Sources
/-!
Plans whose joins are changed. A change that keeps what each join brings, where from, and what it loads of
it goes through all stages of a plan: only types and conditions of joins can be different.
-/
namespace EntityQuery

/-- A change of joins in their types and conditions only. -/
structure JoinClause.Keeps (f : JoinClause → JoinClause) : Prop where
  aliasName : ∀ j, (f j).aliasName = j.aliasName
  sourceAlias : ∀ j, (f j).sourceAlias = j.sourceAlias
  relation : ∀ j, (f j).relation = j.relation
  target : ∀ j, (f j).target = j.target
  indexBy : ∀ j, (f j).indexBy = j.indexBy
  fields : ∀ j, (f j).fields = j.fields

namespace JoinClause.Keeps

variable {f : JoinClause → JoinClause} (hf : Keeps f)

include hf

theorem occurrence (j : JoinClause) (place : Nat) : (f j).occurrence place = j.occurrence place := by
  unfold JoinClause.occurrence
  rw [hf.aliasName, hf.target]

theorem indexField? (j : JoinClause) : (f j).indexField? = j.indexField? := by
  unfold JoinClause.indexField?
  rw [hf.indexBy]

end JoinClause.Keeps

namespace Plan

variable {s : Schema} {p q : Plan} {f : JoinClause → JoinClause}

/-- A plan with its joins changed. -/
def mapJoins (f : JoinClause → JoinClause) (p : Plan) : Plan := { p with joins := p.joins.map f }

/-- Options of an entry that ask for the changed join. -/
structure AsksChanged (f : JoinClause → JoinClause) (key : String) (o o' : RelationOptions) : Prop where
  joinAlias : joinAlias key o' = joinAlias key o
  indexBy : o'.indexBy = o.indexBy
  fields : o'.fields = o.fields
  condition : o'.condition = o.condition
  clause : ∀ (p : Plan) target condition fields, p.joinClause key o' target condition fields =
    f (p.joinClause key o target condition fields)

theorem addRelation_mapJoins (s : Schema) (p : Plan) {key : String} {o o' : RelationOptions}
    (h : AsksChanged f key o o') :
    (p.mapJoins f).addRelation s key o' = (p.addRelation s key o).map (mapJoins f) := by
  have htarget : (p.mapJoins f).relationTarget s key = p.relationTarget s key := rfl
  have hindex : ∀ target, (p.mapJoins f).checkJoinIndex key o' target =
      p.checkJoinIndex key o target := fun target => by
    unfold checkJoinIndex
    rw [h.indexBy]
    rfl
  have hnames : ∀ target, (p.mapJoins f).withTarget (joinAlias key o) target =
      p.withTarget (joinAlias key o) target := fun target => by
    simp [withTarget, mapJoins]
  have hclause : ∀ target condition fields,
      (p.mapJoins f).joinClause key o' target condition fields =
        f (p.joinClause key o target condition fields) := h.clause (p.mapJoins f)
  unfold addRelation
  simp only [htarget, hindex, h.joinAlias, hnames, h.condition, h.fields, hclause]
  rcases p.relationTarget s key with e | target
  · rfl
  simp only [bind, Except.bind]
  rcases p.checkJoinIndex key o target with e | _
  · rfl
  rcases JoinCondition.ofValue (p.withTarget (joinAlias key o) target) o.condition with e | c
  · rfl
  rcases checkedFields target (o.fields.getD []) with e | fields
  · rfl
  · simp [mapJoins, Except.map]

theorem addRelations_mapJoins (s : Schema) (p : Plan) {g : String × RelationOptions → RelationOptions}
    {relations : List (String × RelationOptions)}
    (h : ∀ e ∈ relations, AsksChanged f e.1 e.2 (g e)) :
    (p.mapJoins f).addRelations s (relations.map fun e => (e.1, g e)) =
      ((p.addRelations s relations).1.mapJoins f, (p.addRelations s relations).2) := by
  induction relations generalizing p with
  | nil => rfl
  | cons e rest ih =>
    obtain ⟨hentry, hrest⟩ := List.forall_mem_cons.mp h
    rw [List.map_cons]
    unfold addRelations
    rw [addRelation_mapJoins s p hentry]
    cases p.addRelation s e.1 e.2 with
    | error e => rfl
    | ok q => exact ih q hrest

/-- Relations that ask for what the change leaves as it is. -/
theorem addRelations_unchanged {relations : List (String × RelationOptions)} {failure : Option QueryError}
    (h : ∀ e ∈ relations, AsksChanged f e.1 e.2 e.2) (hr : p.addRelations s relations = (q, failure)) :
    (p.mapJoins f).addRelations s relations = (q.mapJoins f, failure) := by
  have hmap := addRelations_mapJoins s p h
  rwa [hr, show relations.map (fun e => (e.1, e.2)) = relations from List.map_id relations] at hmap

theorem addRelations_append {xs ys : List (String × RelationOptions)} :
    p.addRelations s (xs ++ ys) = (q, none) ↔
      ∃ m, p.addRelations s xs = (m, none) ∧ m.addRelations s ys = (q, none) := by
  induction xs generalizing p with
  | nil => simp [addRelations]
  | cons e xs ih =>
    rw [List.cons_append, addRelations, addRelations]
    cases p.addRelation s e.1 e.2 with
    | error err => simp
    | ok next => exact ih

/-- Relations only give names to the targets of their joins. -/
theorem names_addRelations {relations : List (String × RelationOptions)} {failure : Option QueryError}
    (h : p.addRelations s relations = (q, failure)) : ∃ js, q.joins = p.joins ++ js ∧
      ∀ b ∉ js.map (·.aliasName), q.names.find? b = p.names.find? b := by
  induction relations generalizing p with
  | nil =>
    cases h
    exact ⟨[], by simp, fun _ _ => rfl⟩
  | cons e rest ih =>
    obtain ⟨next, hr, h⟩ | ⟨err, -, rfl, -⟩ := addRelations_cons_eq h
    · obtain ⟨js, hjs, hfind⟩ := ih h
      obtain ⟨target, condition, fields, -, -, -, -, rfl⟩ := addRelation_eq_ok hr
      refine ⟨p.joinClause e.1 e.2 target condition fields :: js, ?_, fun b hb => ?_⟩
      · rw [hjs, List.append_assoc]
        rfl
      · rw [List.map_cons, List.mem_cons, not_or] at hb
        rw [hfind b hb.2]
        exact OrderedMap.find?_insert_of_ne _ _ hb.1
    · exact ⟨[], by simp, fun _ _ => rfl⟩

theorem addParameters_mapJoins (f : JoinClause → JoinClause) (operators : OperatorTable Operator) (p : Plan)
    (parameters : List (String × Value)) : (p.mapJoins f).addParameters operators parameters =
      (p.addParameters operators parameters).map (mapJoins f) := by
  have hpredicate : ∀ e : String × Value, (p.mapJoins f).parameterPredicate operators e.1 e.2 =
      p.parameterPredicate operators e.1 e.2 := fun _ => rfl
  unfold addParameters
  simp only [hpredicate]
  cases parameters.mapM fun e => p.parameterPredicate operators e.1 e.2 <;> rfl

section

variable (hf : JoinClause.Keeps f)

include hf

theorem findJoin_mapJoins (p : Plan) (b : String) :
    (p.mapJoins f).findJoin b = (p.findJoin b).map f := by
  unfold findJoin mapJoins
  rw [List.find?_map]
  simp only [Function.comp_def, hf.aliasName]

theorem withSort_mapJoins (s : Schema) (p : Plan) (sort : List (String × Direction)) :
    (p.mapJoins f).withSort s sort = (p.withSort s sort).mapJoins f := by
  have htarget : ∀ j : JoinClause, (p.mapJoins f).sortTarget? s (f j) = p.sortTarget? s j := fun j => by
    simp [sortTarget?, mapJoins, hf.sourceAlias, hf.relation]
  have hclause : ∀ name dir, (p.mapJoins f).sortClause? s name dir = p.sortClause? s name dir := by
    intro name dir
    unfold sortClause?
    cases Text.splitFirstDot? name with
    | none => rfl
    | some parts =>
      dsimp only
      rw [findJoin_mapJoins hf]
      cases p.findJoin parts.1 with
      | none => rfl
      | some j => simp only [Option.map_some, Option.bind_eq_bind, Option.bind_some, htarget]
  unfold withSort resolveSort
  simp only [hclause]
  rfl

/-- A query whose relations give the changed joins has the plan with its joins changed. -/
theorem build_mapJoins {operators : OperatorTable Operator} {root : Entity} {d e : Descriptor}
    (hsame : e = { d with relations := e.relations })
    (hrelations : ∀ first joined, start root d = .ok first →
      first.addRelations s d.relations.entries = (joined, none) →
        first.addRelations s e.relations.entries = (joined.mapJoins f, none))
    (h : (build s operators root d).plan = .ok p) :
    (build s operators root e).plan = .ok (p.mapJoins f) := by
  obtain ⟨first, joined, filtered, hs, hr, hp, rfl⟩ := build_eq_ok h
  have hstart : start root e = .ok first := by
    rw [hsame]
    exact hs
  have hparameters : e.parameters = d.parameters := by rw [hsame]
  have hsort : e.sort = d.sort := by rw [hsame]
  rw [plan_build, beforeSort, hstart, hparameters, hsort]
  simp only [bind, Except.bind, withRelations_eq_ok_iff.mpr (hrelations first joined hs hr),
    addParameters_mapJoins, hp, Except.map, withSort_mapJoins hf]

theorem joinPaths_mapJoins (paths : OrderedMap RelationPath) (js : List JoinClause) :
    joinPaths paths (js.map f) = (joinPaths paths js).map fun jp => (f jp.1, jp.2) := by
  induction js generalizing paths with
  | nil => rfl
  | cons j js ih => simp [joinPaths, ih, hf.sourceAlias, hf.relation, hf.aliasName]

theorem collectionIndex_mapJoins (p : Plan) : (p.mapJoins f).collectionIndex = p.collectionIndex := by
  unfold collectionIndex
  change List.foldl _ _ (joinPaths _ (p.joins.map f)) = _
  rw [joinPaths_mapJoins hf, List.foldl_map]
  simp only [hf.indexField?]
  rfl

theorem occurrence?_mapJoins (p : Plan) (k : Nat) : (p.mapJoins f).occurrence? k = p.occurrence? k := by
  cases k with
  | zero => rfl
  | succ k =>
    unfold occurrence? mapJoins
    dsimp only
    rw [List.getElem?_map, Option.map_map]
    simp only [Function.comp_def, hf.occurrence]

theorem source_mapJoins (p : Plan) (j : JoinClause) : (p.mapJoins f).source (f j) = p.source j := by
  unfold source
  rw [hf.sourceAlias]
  rfl

theorem relationship_mapJoins (p : Plan) (j : JoinClause) :
    (p.mapJoins f).relationship (f j) = p.relationship j := by
  unfold relationship
  rw [source_mapJoins hf, hf.relation]

/-- Changed joins have the places of the joins. -/
theorem layout_mapJoins (hp : p.Layout s) : (p.mapJoins f).Layout s := by
  have hjoin : ∀ {i} {j : JoinClause}, (p.mapJoins f).joins[i]? = some j →
      ∃ j', p.joins[i]? = some j' ∧ f j' = j := fun hj => by
    unfold mapJoins at hj
    rw [List.getElem?_map] at hj
    exact Option.map_eq_some_iff.mp hj
  constructor
  · have haliases : (p.mapJoins f).aliasNames = p.aliasNames := by
      simp [aliasNames, mapJoins, rootAlias, hf.aliasName]
    rw [haliases]
    exact hp.distinct
  · exact hp.root_name
  · intro i j hj
    obtain ⟨j', hj', rfl⟩ := hjoin hj
    rw [hf.aliasName, hf.occurrence]
    exact hp.join_name i j' hj'
  · intro i j hj
    obtain ⟨j', hj', rfl⟩ := hjoin hj
    simp only [occurrence?_mapJoins hf, hf.sourceAlias, hf.relation, hf.target]
    exact hp.source i j' hj'
  · simp only [occurrence?_mapJoins hf]
    exact hp.named

end

/-- A change of joins that have been followed, in their predicates and types only. -/
structure ResolvedJoin.Keeps (F : ResolvedJoin → ResolvedJoin) : Prop where
  source : ∀ j, (F j).source = j.source
  relationship : ∀ j, (F j).relationship = j.relationship
  target : ∀ j, (F j).target = j.target
  fields : ∀ j, (F j).fields = j.fields

/-- The loads of a selection do not depend on the types and conditions of its joins. -/
theorem loadTree_map {F : ResolvedJoin → ResolvedJoin} (hF : ResolvedJoin.Keeps F) (p : Plan)
    (js : List ResolvedJoin) : p.loadTree (js.map F) = p.loadTree js := by
  unfold loadTree
  rw [List.foldl_map]
  simp only [hF.source, hF.relationship, hF.target, hF.fields]

/-- What changed joins are followed to, where that of each of them is known. -/
theorem resolveJoins_mapJoins {F : ResolvedJoin → ResolvedJoin}
    (h : ∀ j ∈ p.joins, ∀ place,
      (p.mapJoins f).resolveJoin place (f j) = (p.resolveJoin place j).map F) :
    (p.mapJoins f).resolveJoins = p.resolveJoins.map (List.map F) := by
  have hfrom : ∀ {js : List JoinClause} {place}, (∀ j ∈ js, j ∈ p.joins) →
      (p.mapJoins f).resolveJoinsFrom place (js.map f) =
        (p.resolveJoinsFrom place js).map (List.map F) := by
    intro js
    induction js with
    | nil => exact fun _ => rfl
    | cons j js ih =>
      intro place hjs
      obtain ⟨hj, hrest⟩ := List.forall_mem_cons.mp hjs
      rw [List.map_cons]
      unfold resolveJoinsFrom
      rw [h j hj, ih hrest]
      rcases p.resolveJoin place j with e | r
      · rfl
      rcases p.resolveJoinsFrom (place + 1) js with e | rs <;> rfl
  exact hfrom fun _ hj => hj

end Plan
end EntityQuery
