import EntityQuery.Proofs.RootFilter
import EntityQuery.Proofs.StoredRows
/-!
The columns of join conditions. A condition is built over the names that stand when its join is added,
so it names columns of the target of this join and of what stands before it.
-/
namespace EntityQuery

namespace Predicate

theorem columnsOf_append (ps qs : List Predicate) :
    columnsOf (ps ++ qs) = columnsOf ps ++ columnsOf qs := by
  induction ps with
  | nil => rfl
  | cons p ps ih => simp [columnsOf, ih]

theorem columnsOf_flatMap {f : Predicate → List Predicate} (h : ∀ p, columnsOf (f p) = p.columns)
    (ps : List Predicate) : columnsOf (ps.flatMap f) = columnsOf ps := by
  induction ps with
  | nil => rfl
  | cons p ps ih => rw [List.flatMap_cons, columnsOf_append, h, ih, columnsOf]

theorem columnsOf_conjuncts (p : Predicate) : columnsOf p.conjuncts = p.columns := by
  cases p <;> simp [conjuncts, columnsOf, columns]

theorem columnsOf_disjuncts (p : Predicate) : columnsOf p.disjuncts = p.columns := by
  cases p <;> simp [disjuncts, columnsOf, columns]

theorem columns_conjunction (ps : List Predicate) : (conjunction ps).columns = columnsOf ps := by
  rw [← columnsOf_flatMap columnsOf_conjuncts ps]
  unfold conjunction
  split
  · rename_i p hp
    simp [hp, columnsOf]
  · rfl

theorem columns_disjunction (ps : List Predicate) : (disjunction ps).columns = columnsOf ps := by
  rw [← columnsOf_flatMap columnsOf_disjuncts ps]
  unfold disjunction
  split
  · rename_i p hp
    simp [hp, columnsOf]
  · rfl

theorem columns_negate (p : Predicate) : p.negate.columns = p.columns := by
  cases p <;> rfl

end Predicate

/-- A column of an occurrence. -/
def Occurrence.Names (o : Occurrence) (c : ColumnRef) : Prop :=
  ∃ column ∈ o.entity.columns, c = ⟨.entity o.position, o.aliasName, column⟩

/-- A column of what some name stands for. -/
def NamedIn (names : OrderedMap Occurrence) (c : ColumnRef) : Prop :=
  ∃ a o, names.find? a = some o ∧ o.Names c

theorem Occurrence.names_column? {o : Occurrence} {field : String} {c : ColumnRef}
    (h : o.column? field = some c) : o.Names c := by
  obtain ⟨column, hcolumn, rfl⟩ := Option.map_eq_some_iff.mp h
  exact ⟨column, List.mem_of_find?_eq_some hcolumn, rfl⟩

theorem namedIn_resolveQualified {names : OrderedMap Occurrence} {name : String} {c : ColumnRef}
    (h : resolveQualified names name = .ok c) : NamedIn names c := by
  unfold resolveQualified at h
  dsimp only at h
  split at h
  · cases h
  · rename_i o ho
    split at h
    · rename_i column hcolumn
      cases h
      exact ⟨_, o, ho, o.names_column? hcolumn⟩
    · cases h

theorem columns_withValue {op : ConditionOperator} {c : ColumnRef} {v : Value} {p : Predicate}
    (h : op.withValue c v = .ok p) : p.columns = [c] := by
  cases op with
  | equal => exact Operator.columns_apply (o := .equal) h
  | notEqual => exact Operator.columns_apply (o := .notEqual) h
  | less => exact Operator.columns_apply (o := .less) h
  | greater => exact Operator.columns_apply (o := .greater) h
  | like => exact Operator.columns_apply (o := .like) h

mutual

/-- The columns of a condition are those of the names that it is built over. -/
theorem namedIn_build {names : OrderedMap Occurrence} :
    ∀ {condition : Condition Value} {p : Predicate}, condition.build names = .ok p →
      ∀ c ∈ p.columns, NamedIn names c
  | .all parts, p, h, c, hc => by
    unfold Condition.build at h
    obtain ⟨ps, hps, rfl⟩ := ok_of_map h
    rw [Predicate.columns_conjunction] at hc
    exact namedIn_buildParts hps c hc
  | .any parts, p, h, c, hc => by
    unfold Condition.build at h
    obtain ⟨ps, hps, rfl⟩ := ok_of_map h
    rw [Predicate.columns_disjunction] at hc
    exact namedIn_buildParts hps c hc
  | .negation part, p, h, c, hc => by
    unfold Condition.build at h
    obtain ⟨q, hq, rfl⟩ := ok_of_map h
    rw [Predicate.columns_negate] at hc
    exact namedIn_build hq c hc
  | .compareValue op field v, p, h, c, hc => by
    unfold Condition.build at h
    obtain ⟨l, hl, h⟩ := ok_of_bind h
    rw [columns_withValue h, List.mem_singleton] at hc
    exact hc ▸ namedIn_resolveQualified hl
  | .compareField op field other, p, h, c, hc => by
    unfold Condition.build at h
    obtain ⟨l, hl, h⟩ := ok_of_bind h
    obtain ⟨r, hr, rfl⟩ := ok_of_map h
    have hcolumns : c = l ∨ c = r := by
      cases op <;> simpa [ConditionOperator.withColumn, Predicate.columns,
        Predicate.Operand.columns] using hc
    rcases hcolumns with rfl | rfl
    · exact namedIn_resolveQualified hl
    · exact namedIn_resolveQualified hr

theorem namedIn_buildParts {names : OrderedMap Occurrence} :
    ∀ {conditions : List (Condition Value)} {ps : List Predicate},
      Condition.buildParts names conditions = .ok ps → ∀ c ∈ Predicate.columnsOf ps, NamedIn names c
  | [], ps, h, c, hc => by
    unfold Condition.buildParts at h
    cases h
    cases hc
  | condition :: conditions, ps, h, c, hc => by
    unfold Condition.buildParts at h
    obtain ⟨p, hp, h⟩ := ok_of_bind h
    obtain ⟨qs, hqs, rfl⟩ := ok_of_map h
    rcases List.mem_append.mp hc with hc | hc
    · exact namedIn_build hp c hc
    · exact namedIn_buildParts hqs c hc

end

namespace Plan

variable {s : Schema} {p q : Plan}

/-- The condition of a join names columns of its target and of what stands before it. -/
def ConditionsNamed (p : Plan) : Prop :=
  ∀ i (j : JoinClause) condition, p.joins[i]? = some j → j.condition = .predicate condition →
    ∀ c ∈ condition.columns, ∃ k ≤ i + 1, ∃ o, p.occurrence? k = some o ∧ o.Names c

theorem namedIn_ofValue {names : OrderedMap Occurrence} {v : Value} {condition : Predicate}
    (h : JoinCondition.ofValue names v = .ok (.predicate condition)) :
    ∀ c ∈ condition.columns, NamedIn names c := by
  unfold JoinCondition.ofValue at h
  split at h
  · cases h
  · obtain ⟨built, hbuilt, he⟩ := ok_of_map h
    cases he
    exact namedIn_build hbuilt
  · cases h
    exact fun c hc => absurd hc List.not_mem_nil
  · cases h

theorem conditionsNamed_addRelation (hp : p.ConditionsNamed) {key : String} {o : RelationOptions}
    (h : p.addRelation s key o = .ok q) (hq : q.Layout s) : q.ConditionsNamed := by
  obtain ⟨target, condition, fields, -, -, hcondition, -, hplan⟩ := addRelation_eq_ok h
  have hnames : q.names = p.withTarget (joinAlias key o) target := congrArg Plan.names hplan
  have hjoins : q.joins = p.joins ++ [p.joinClause key o target condition fields] :=
    congrArg Plan.joins hplan
  have hroot : q.root = p.root := by rw [hplan]
  have hocc : ∀ {k}, k ≤ p.joins.length → q.occurrence? k = p.occurrence? k :=
    fun hk => occurrence?_append hroot hjoins hk
  intro i j built hj hbuilt c hc
  rw [hjoins] at hj
  rcases getElem?_append_singleton hj with hj | ⟨rfl, rfl⟩
  · obtain ⟨k, hk, o', ho', hc⟩ := hp i j built hj hbuilt c hc
    have hi := (List.getElem?_eq_some_iff.mp hj).1
    exact ⟨k, hk, o', (hocc (by omega)).trans ho', hc⟩
  · have hvalue : condition = .predicate built := hbuilt
    rw [hvalue, ← hnames] at hcondition
    obtain ⟨a, o', ho', hc⟩ := namedIn_ofValue hcondition c hc
    obtain ⟨k, hk, -⟩ := hq.named a o' ho'
    have hle := lt_of_occurrence?_eq_some hk
    rw [hjoins, List.length_append, List.length_singleton] at hle
    exact ⟨k, hle, o', hk, hc⟩

theorem conditionsNamed_addRelations {relations : List (String × RelationOptions)}
    (hp : p.Layout s) (hnamed : p.ConditionsNamed)
    (hnew : (p.aliasNames ++ relations.map fun e => joinAlias e.1 e.2).Nodup)
    (h : p.addRelations s relations = (q, none)) : q.ConditionsNamed := by
  induction relations generalizing p with
  | nil =>
    cases h
    exact hnamed
  | cons e rest ih =>
    obtain ⟨next, hr, h⟩ := addRelations_cons_eq_ok.mp h
    have hfresh : joinAlias e.1 e.2 ∉ p.aliasNames := fun hm =>
      (List.nodup_append.mp hnew).2.2 _ hm _ (by simp) rfl
    have hnext := layout_addRelation hp hfresh hr
    refine ih hnext (conditionsNamed_addRelation hnamed hr hnext) ?_ h
    obtain ⟨target, condition, fields, -, -, -, -, rfl⟩ := addRelation_eq_ok hr
    simpa [aliasNames, rootAlias, joinClause, List.append_assoc] using hnew

theorem conditionsNamed_build {operators : OperatorTable Operator} {root : Entity}
    {d : Descriptor} (hd : d.DistinctAliases root) (h : (build s operators root d).plan = .ok p) :
    p.ConditionsNamed := by
  obtain ⟨first, joined, filtered, hs, hr, hf, rfl⟩ := build_eq_ok h
  obtain ⟨predicates, -, rfl⟩ := addParameters_eq_ok hf
  have hnone : first.ConditionsNamed := by
    rw [start_eq_ok hs]
    exact fun i j _ hj => by simp [ofRoot] at hj
  have hjoined : joined.ConditionsNamed :=
    conditionsNamed_addRelations (layout_start hs) hnone (distinct_start hd hs) hr
  exact hjoined

/-- A predicate that narrows a link names columns of the target and of what stands before it. -/
theorem names_extra (hp : p.Layout s) (hnamed : p.ConditionsNamed) {js : List ResolvedJoin}
    (hj : p.resolveJoins = .ok js) {j : ResolvedJoin} (hmem : j ∈ js) {extra : Predicate}
    (hextra : j.predicate = .linked (some extra)) {c : ColumnRef} (hc : c ∈ extra.columns) :
    ∃ k ≤ j.target.position, ∃ o, p.occurrence? k = some o ∧ o.Names c := by
  obtain ⟨hst, hfollows⟩ := resolveJoins_eq_ok hp hj
  obtain ⟨clause, hclause, halias, -, hpredicate, -⟩ := exists_of_forall₂ hfollows hmem
  obtain ⟨i, hi⟩ := List.mem_iff_getElem?.mp hclause
  have hplace : j.target = clause.occurrence i := by
    have hname := occurrence?_name hp (target_of_position hst hmem).2
    rw [halias, hp.join_name i clause hi] at hname
    exact (Option.some.inj hname).symm
  have hposition : j.target.position = i + 1 := congrArg Occurrence.position hplace
  rw [hextra] at hpredicate
  unfold JoinClause.predicate at hpredicate
  split at hpredicate
  · cases hpredicate
  · cases hpredicate
  · rename_i built hcondition _
    cases hpredicate
    rw [hposition]
    exact hnamed i clause extra hi hcondition c hc
  · cases hpredicate
  · cases hpredicate
    cases hc
  · cases hpredicate

end Plan
end EntityQuery
