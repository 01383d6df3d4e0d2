import Mathlib.Data.List.Forall2
import EntityQuery.Builder
import EntityQuery.Proofs.Result
/-!
The layout of a plan whose aliases are pairwise distinct: each name stands for the root or for the
one join under it, and each join starts at the root or at the target of an earlier join.
-/
namespace EntityQuery

/-- The aliases that the relations of a descriptor give to their joins, in order. -/
def Descriptor.joinAliases (d : Descriptor) : List String :=
  d.relations.entries.map fun e => Plan.joinAlias e.1 e.2

/-- The aliases of a query differ from each other: that of the root and those of the joins. -/
def Descriptor.DistinctAliases (root : Entity) (d : Descriptor) : Prop :=
  (root.aliasName :: d.joinAliases).Nodup

instance (root : Entity) (d : Descriptor) : Decidable (d.DistinctAliases root) :=
  inferInstanceAs (Decidable (List.Nodup _))

namespace Plan

theorem column?_rootOccurrence (root : Entity) (field : String) :
    (rootOccurrence root).column? field =
      (root.column? field).map fun c => ⟨.entity 0, root.aliasName, c⟩ := rfl

/-- The aliases of a plan: that of its root, then those of its joins. -/
def aliasNames (p : Plan) : List String := p.rootAlias :: p.joins.map (·.aliasName)

theorem relationTarget_eq_ok {s : Schema} {p : Plan} {key : String} {target : Entity}
    (h : p.relationTarget s key = .ok target) :
    ∃ o r, p.names.find? (p.splitRelation key).1 = some o ∧
      o.entity.relationship? (p.splitRelation key).2 = some r ∧
      s.entity? r.target = some target := by
  unfold relationTarget at h
  dsimp only at h
  split at h
  · cases h
  · rename_i o ho
    split at h
    · cases h
    · rename_i t ht
      cases h
      obtain ⟨r, hr, hrt⟩ := Option.bind_eq_some_iff.mp ht
      exact ⟨o, r, ho, hr, hrt⟩

/-- All that a relation does to a plan that accepts it. -/
theorem addRelation_eq_ok {s : Schema} {p q : Plan} {key : String} {o : RelationOptions}
    (h : p.addRelation s key o = .ok q) :
    ∃ target condition fields, p.relationTarget s key = .ok target ∧
      p.checkJoinIndex key o target = .ok () ∧
      JoinCondition.ofValue (p.withTarget (joinAlias key o) target) o.condition = .ok condition ∧
      checkedFields target (o.fields.getD []) = .ok fields ∧
      q = { p with names := p.withTarget (joinAlias key o) target,
                   joins := p.joins ++ [p.joinClause key o target condition fields] } := by
  unfold addRelation at h
  rcases ht : p.relationTarget s key with e | target
  · rw [ht] at h
    cases h
  rcases hi : p.checkJoinIndex key o target with e | _
  · rw [ht] at h
    simp only [bind, Except.bind, hi] at h
    cases h
  rcases hc : JoinCondition.ofValue (p.withTarget (joinAlias key o) target) o.condition
    with e | condition
  · rw [ht] at h
    simp only [bind, Except.bind, hi, hc] at h
    cases h
  rcases hf : checkedFields target (o.fields.getD []) with e | fields
  · rw [ht] at h
    simp only [bind, Except.bind, hi, hc, hf] at h
    cases h
  · rw [ht] at h
    simp only [bind, Except.bind, hi, hc, hf, Except.ok.injEq] at h
    exact ⟨target, condition, fields, rfl, hi, hc, hf, h.symm⟩

/-- Each name stands for one entity of the statement, and each join starts where an entity stands
already. -/
structure Layout (s : Schema) (p : Plan) : Prop where
  distinct : p.aliasNames.Nodup
  root_name : p.names.find? p.rootAlias = some (rootOccurrence p.root)
  join_name : ∀ i (j : JoinClause), p.joins[i]? = some j →
    p.names.find? j.aliasName = some (j.occurrence i)
  source : ∀ i (j : JoinClause), p.joins[i]? = some j → ∃ k ≤ i, ∃ o r, p.occurrence? k = some o ∧
    o.aliasName = j.sourceAlias ∧ o.entity.relationship? j.relation = some r ∧
    s.entity? r.target = some j.target
  named : ∀ a (o : Occurrence), p.names.find? a = some o →
    ∃ k, p.occurrence? k = some o ∧ o.aliasName = a

theorem layout_ofRoot (s : Schema) (root : Entity) : Layout s (ofRoot root) where
  distinct := by simp [aliasNames, ofRoot]
  root_name := OrderedMap.find?_insert_self _ _ _
  join_name i j h := by simp [ofRoot] at h
  source i j h := by simp [ofRoot] at h
  named a o h := by
    by_cases ha : a = root.aliasName
    · subst ha
      rw [ofRoot, OrderedMap.find?_insert_self] at h
      cases h
      exact ⟨0, rfl, rfl⟩
    · rw [ofRoot, OrderedMap.find?_insert_of_ne _ _ ha] at h
      simp [OrderedMap.find?] at h

theorem occurrence?_append {p q : Plan} {j : JoinClause} (hr : q.root = p.root)
    (hj : q.joins = p.joins ++ [j]) {k : Nat} (hk : k ≤ p.joins.length) :
    q.occurrence? k = p.occurrence? k := by
  cases k with
  | zero => simp [occurrence?, hr]
  | succ k =>
    simp only [occurrence?, hj]
    rw [List.getElem?_append_left (by omega)]

theorem getElem?_append_singleton {α : Type} {xs : List α} {x y : α} {i : Nat}
    (h : (xs ++ [x])[i]? = some y) : xs[i]? = some y ∨ (i = xs.length ∧ y = x) := by
  rcases Nat.lt_trichotomy i xs.length with hlt | heq | hgt
  · rw [List.getElem?_append_left hlt] at h
    exact .inl h
  · subst heq
    simp at h
    exact .inr ⟨rfl, h.symm⟩
  · rw [List.getElem?_eq_none (by simp; omega)] at h
    cases h

theorem lt_of_occurrence?_eq_some {p : Plan} {k : Nat} {o : Occurrence}
    (h : p.occurrence? k = some o) : k ≤ p.joins.length := by
  cases k with
  | zero => omega
  | succ k =>
    obtain ⟨j, hj, -⟩ := Option.map_eq_some_iff.mp h
    have := (List.getElem?_eq_some_iff.mp hj).1
    omega

theorem mem_aliasNames {p : Plan} {k : Nat} {o : Occurrence} (h : p.occurrence? k = some o) :
    o.aliasName ∈ p.aliasNames := by
  cases k with
  | zero =>
    cases h
    exact List.mem_cons_self
  | succ k =>
    obtain ⟨j, hj, rfl⟩ := Option.map_eq_some_iff.mp h
    exact List.mem_cons_of_mem _ (List.mem_map_of_mem (List.mem_of_getElem? hj))

/-- A relation under a new alias keeps the layout. -/
theorem layout_addRelation {s : Schema} {p q : Plan} {key : String} {o : RelationOptions}
    (hp : p.Layout s) (hnew : joinAlias key o ∉ p.aliasNames) (h : p.addRelation s key o = .ok q) :
    q.Layout s := by
  obtain ⟨target, condition, fields, ht, -, -, -, rfl⟩ := addRelation_eq_ok h
  obtain ⟨source, r, hsource, hr, hrt⟩ := relationTarget_eq_ok ht
  let j := p.joinClause key o target condition fields
  let q : Plan := { p with names := p.withTarget (joinAlias key o) target, joins := p.joins ++ [j] }
  have hja : j.aliasName = joinAlias key o := rfl
  have hocc : ∀ {k}, k ≤ p.joins.length → q.occurrence? k = p.occurrence? k :=
    fun hk => occurrence?_append (p := p) (q := q) (j := j) rfl rfl hk
  have hlast : q.occurrence? (p.joins.length + 1) = some (j.occurrence p.joins.length) := by
    simp [q, occurrence?]
  have hnames : ∀ {a}, a ∈ p.aliasNames →
      (p.withTarget (joinAlias key o) target).find? a = p.names.find? a := fun ha =>
    OrderedMap.find?_insert_of_ne _ _ fun e => hnew (e ▸ ha)
  refine ⟨?_, ?_, ?_, ?_, ?_⟩
  · have : q.aliasNames = p.aliasNames ++ [joinAlias key o] := by
      simp [aliasNames, q, rootAlias, hja]
    rw [this]
    exact List.nodup_append.mpr ⟨hp.distinct, by simp, fun a ha b hb => by
      simp at hb
      rintro rfl
      exact hnew (hb ▸ ha)⟩
  · rw [hnames (by simp [aliasNames, rootAlias])]
    exact hp.root_name
  · intro i k hk
    rcases getElem?_append_singleton hk with hk | ⟨rfl, rfl⟩
    · rw [hnames (by simp [aliasNames]; exact .inr ⟨k, List.mem_of_getElem? hk, rfl⟩)]
      exact hp.join_name i k hk
    · exact OrderedMap.find?_insert_self _ _ _
  · intro i k hk
    rcases getElem?_append_singleton hk with hk | ⟨rfl, rfl⟩
    · obtain ⟨n, hn, o', r', ho', h1, h2, h3⟩ := hp.source i k hk
      have hi := (List.getElem?_eq_some_iff.mp hk).1
      exact ⟨n, hn, o', r', by rw [hocc (by omega)]; exact ho', h1, h2, h3⟩
    · obtain ⟨n, hn, hna⟩ := hp.named _ _ hsource
      have hle := lt_of_occurrence?_eq_some hn
      exact ⟨n, hle, source, r, by rw [hocc hle]; exact hn, hna, hr, hrt⟩
  · intro a o' ho'
    by_cases ha : a = joinAlias key o
    · subst ha
      rw [withTarget, OrderedMap.find?_insert_self] at ho'
      cases ho'
      exact ⟨p.joins.length + 1, hlast, rfl⟩
    · rw [withTarget, OrderedMap.find?_insert_of_ne _ _ ha] at ho'
      obtain ⟨k, hk, hka⟩ := hp.named a o' ho'
      exact ⟨k, by rw [hocc (lt_of_occurrence?_eq_some hk)]; exact hk, hka⟩

/-- Relations are added one after the other, up to the first that fails. -/
theorem addRelations_cons_eq {s : Schema} {p q : Plan} {e : String × RelationOptions}
    {rest : List (String × RelationOptions)} {failure : Option QueryError}
    (h : p.addRelations s (e :: rest) = (q, failure)) :
    (∃ next, p.addRelation s e.1 e.2 = .ok next ∧ next.addRelations s rest = (q, failure)) ∨
      ∃ err, p.addRelation s e.1 e.2 = .error err ∧ q = p ∧ failure = some err := by
  unfold addRelations at h
  cases hr : p.addRelation s e.1 e.2 with
  | ok next =>
    rw [hr] at h
    exact .inl ⟨next, rfl, h⟩
  | error err =>
    rw [hr] at h
    cases h
    exact .inr ⟨err, rfl, rfl, rfl⟩

theorem addRelations_cons_eq_ok {s : Schema} {p q : Plan} {e : String × RelationOptions}
    {rest : List (String × RelationOptions)} : p.addRelations s (e :: rest) = (q, none) ↔
      ∃ next, p.addRelation s e.1 e.2 = .ok next ∧ next.addRelations s rest = (q, none) := by
  constructor
  · intro h
    obtain h | ⟨err, -, -, hfailure⟩ := addRelations_cons_eq h
    · exact h
    · cases hfailure
  · rintro ⟨next, hr, h⟩
    rw [addRelations, hr]
    exact h

theorem layout_addRelations {s : Schema} {p q : Plan} {relations : List (String × RelationOptions)}
    (hp : p.Layout s)
    (hnew : (p.aliasNames ++ relations.map fun e => joinAlias e.1 e.2).Nodup)
    (h : p.addRelations s relations = (q, none)) : q.Layout s := by
  induction relations generalizing p with
  | nil =>
    cases h
    exact hp
  | cons e rest ih =>
    obtain ⟨next, hr, h⟩ := addRelations_cons_eq_ok.mp h
    have hfresh : joinAlias e.1 e.2 ∉ p.aliasNames := fun hm =>
      (List.nodup_append.mp hnew).2.2 _ hm _ (by simp) rfl
    refine ih (layout_addRelation hp hfresh hr) ?_ h
    obtain ⟨target, condition, fields, -, -, -, -, rfl⟩ := addRelation_eq_ok hr
    simpa [aliasNames, rootAlias, joinClause, List.append_assoc] using hnew

/-- A plan with the joins of relations, if all of them can be added. -/
def withRelations (s : Schema) (p : Plan) (relations : List (String × RelationOptions)) :
    Except QueryError Plan :=
  match p.addRelations s relations with
  | (joined, none) => .ok joined
  | (_, some e) => .error e

theorem withRelations_eq_ok_iff {s : Schema} {p q : Plan} {relations : List (String × RelationOptions)} :
    p.withRelations s relations = .ok q ↔ p.addRelations s relations = (q, none) := by
  unfold withRelations
  rcases p.addRelations s relations with ⟨joined, _ | e⟩ <;> simp

theorem withRelations_eq_error_iff {s : Schema} {p : Plan} {relations : List (String × RelationOptions)}
    {e : QueryError} :
    p.withRelations s relations = .error e ↔ (p.addRelations s relations).2 = some e := by
  unfold withRelations
  rcases p.addRelations s relations with ⟨joined, _ | e'⟩ <;> simp

/-- The plan of a query before it is sorted: joined and filtered, or the failure of the first stage that
fails. -/
def beforeSort (s : Schema) (operators : OperatorTable Operator) (root : Entity) (d : Descriptor) :
    Except QueryError Plan :=
  start root d >>= fun first =>
    first.withRelations s d.relations.entries >>= fun joined =>
      joined.addParameters operators d.parameters.entries

/-- A build fails only before it sorts. -/
theorem plan_build (s : Schema) (operators : OperatorTable Operator) (root : Entity) (d : Descriptor) :
    (build s operators root d).plan =
      (beforeSort s operators root d).map fun filtered => filtered.withSort s d.sort.entries := by
  unfold build beforeSort withRelations
  cases start root d with
  | error e => rfl
  | ok first =>
    dsimp only [bind, Except.bind]
    rcases first.addRelations s d.relations.entries with ⟨joined, _ | e⟩
    · dsimp only
      cases joined.addParameters operators d.parameters.entries <;> rfl
    · rfl

/-- The stages that a plan goes through when it is built. -/
theorem build_eq_ok {s : Schema} {operators : OperatorTable Operator} {root : Entity}
    {d : Descriptor} {p : Plan} (h : (build s operators root d).plan = .ok p) :
    ∃ first joined filtered, start root d = .ok first ∧
      first.addRelations s d.relations.entries = (joined, none) ∧
      joined.addParameters operators d.parameters.entries = .ok filtered ∧
      p = filtered.withSort s d.sort.entries := by
  rw [plan_build] at h
  obtain ⟨filtered, hbefore, hp⟩ := ok_of_map h
  obtain ⟨first, hstart, hbefore⟩ := ok_of_bind hbefore
  obtain ⟨joined, hjoined, hfiltered⟩ := ok_of_bind hbefore
  exact ⟨first, joined, filtered, hstart, withRelations_eq_ok_iff.mp hjoined, hfiltered,
    hp.symm⟩

/-- The plan that the stages start from. -/
theorem start_eq_ok {root : Entity} {d : Descriptor} {p : Plan} (h : start root d = .ok p) :
    p = { ofRoot root with
      limit := d.limit, offset := d.offset, indexBy := d.indexBy, fields := d.fields } := by
  unfold start at h
  dsimp only at h
  split at h
  · cases h
  · unfold checkedFields at h
    dsimp only at h
    split at h
    · cases h
      rfl
    · cases h

/-- What the parameters add to a plan. -/
theorem addParameters_eq_ok {operators : OperatorTable Operator} {p q : Plan}
    {parameters : List (String × Value)} (h : p.addParameters operators parameters = .ok q) :
    ∃ predicates,
      (parameters.mapM fun e => p.parameterPredicate operators e.1 e.2) = .ok predicates ∧
      q = { p with predicates := p.predicates ++ predicates } := by
  unfold addParameters at h
  cases hm : parameters.mapM fun e => p.parameterPredicate operators e.1 e.2 with
  | error e =>
    simp only [hm] at h
    cases h
  | ok predicates =>
    simp only [hm] at h
    cases h
    exact ⟨predicates, rfl, rfl⟩

/-- What the relation stage leaves as it was. -/
theorem addRelations_frame {s : Schema} {p q : Plan} {relations : List (String × RelationOptions)}
    {e : Option QueryError} (h : p.addRelations s relations = (q, e)) :
    q = { p with names := q.names, joins := q.joins } := by
  induction relations generalizing p with
  | nil =>
    cases h
    rfl
  | cons entry rest ih =>
    obtain ⟨next, hr, h⟩ | ⟨err, -, rfl, -⟩ := addRelations_cons_eq h
    · obtain ⟨target, condition, fields, -, -, -, -, rfl⟩ := addRelation_eq_ok hr
      have hq := ih h
      exact hq
    · rfl

/-- A join is the one that an entry of the relations asks for. -/
structure Asked (root : Entity) (e : String × RelationOptions) (j : JoinClause) : Prop where
  aliasName : j.aliasName = joinAlias e.1 e.2
  path : (j.sourceAlias, j.relation) = (ofRoot root).splitRelation e.1
  joinType : j.joinType = e.2.joinType
  condition : e.2.condition = .null → j.condition = .absent
  indexBy : e.2.indexBy = none → j.indexBy = none

/-- Each entry of the relations adds the join that it asks for. -/
theorem addRelations_joins {s : Schema} {p q : Plan} {relations : List (String × RelationOptions)}
    (h : p.addRelations s relations = (q, none)) :
    ∃ js, q.joins = p.joins ++ js ∧ List.Forall₂ (Asked p.root) relations js := by
  induction relations generalizing p with
  | nil =>
    cases h
    exact ⟨[], by simp, .nil⟩
  | cons e rest ih =>
    obtain ⟨next, hr, h⟩ := addRelations_cons_eq_ok.mp h
    obtain ⟨target, condition, fields, -, -, hc, -, rfl⟩ := addRelation_eq_ok hr
    obtain ⟨js, hjs, hall⟩ := ih h
    refine ⟨p.joinClause e.1 e.2 target condition fields :: js, ?_, .cons ?_ hall⟩
    · rw [hjs]
      simp
    · refine ⟨rfl, rfl, rfl, fun hnull => ?_, fun hnone => ?_⟩
      · rw [hnull] at hc
        cases hc
        rfl
      · simp [joinClause, hnone]

/-- The joins of a built plan are those that its descriptor asks for. -/
theorem build_joins {s : Schema} {operators : OperatorTable Operator} {root : Entity}
    {d : Descriptor} {p : Plan} (h : (build s operators root d).plan = .ok p) :
    List.Forall₂ (Asked root) d.relations.entries p.joins := by
  obtain ⟨first, joined, filtered, hs, hr, hf, rfl⟩ := build_eq_ok h
  obtain ⟨predicates, -, rfl⟩ := addParameters_eq_ok hf
  obtain ⟨js, hjs, hall⟩ := addRelations_joins hr
  rw [start_eq_ok hs] at hjs hall
  have hempty : joined.joins = js := by
    rw [hjs]
    rfl
  change List.Forall₂ (Asked root) d.relations.entries joined.joins
  rw [hempty]
  exact hall

/-- The plan that the relations of a query are joined to has its root, and no filter and no order yet. -/
theorem frame_joined {s : Schema} {root : Entity} {d : Descriptor} {first joined : Plan}
    {e : Option QueryError} (hstart : start root d = .ok first)
    (hr : first.addRelations s d.relations.entries = (joined, e)) :
    joined.root = root ∧ joined.predicates = [] ∧ joined.orderBy = [] := by
  rw [addRelations_frame hr, start_eq_ok hstart]
  exact ⟨rfl, rfl, rfl⟩

theorem root_start {root : Entity} {d : Descriptor} {first : Plan} (hstart : start root d = .ok first) :
    first.root = root := by
  rw [start_eq_ok hstart, ofRoot]

/-- A plan with nothing but a root and fields has a layout. -/
theorem layout_start {s : Schema} {root : Entity} {d : Descriptor} {first : Plan}
    (hstart : start root d = .ok first) : first.Layout s := by
  rw [start_eq_ok hstart]
  have h := layout_ofRoot s root
  exact ⟨h.distinct, h.root_name, h.join_name, h.source, h.named⟩

/-- The aliases of a query are those of its root and of its relations. -/
theorem distinct_start {root : Entity} {d : Descriptor} {first : Plan}
    (hd : d.DistinctAliases root) (hstart : start root d = .ok first) :
    (first.aliasNames ++ d.relations.entries.map fun e => joinAlias e.1 e.2).Nodup := by
  rw [start_eq_ok hstart]
  exact hd

/-- The plan that the relations of a query are joined to keeps their layout. -/
theorem layout_joined {s : Schema} {root : Entity} {d : Descriptor} {first joined : Plan}
    (hd : d.DistinctAliases root) (hstart : start root d = .ok first)
    (hr : first.addRelations s d.relations.entries = (joined, none)) : joined.Layout s :=
  layout_addRelations (layout_start hstart) (distinct_start hd hstart) hr

/-- A plan that is built keeps the layout of its relations. -/
theorem layout_build {s : Schema} {operators : OperatorTable Operator} {root : Entity}
    {d : Descriptor} {p : Plan} (hd : d.DistinctAliases root)
    (h : (build s operators root d).plan = .ok p) : p.Layout s := by
  obtain ⟨first, joined, filtered, hs, hr, hf, rfl⟩ := build_eq_ok h
  have hj := layout_joined hd hs hr
  obtain ⟨predicates, -, rfl⟩ := addParameters_eq_ok hf
  exact ⟨hj.distinct, hj.root_name, hj.join_name, hj.source, hj.named⟩

/-- The bounds, the projection and the index of a built plan are those of its descriptor. -/
theorem build_frame {s : Schema} {operators : OperatorTable Operator} {root : Entity}
    {d : Descriptor} {p : Plan} (h : (build s operators root d).plan = .ok p) :
    p.root = root ∧ p.limit = d.limit ∧ p.offset = d.offset ∧ p.indexBy = d.indexBy ∧
      p.fields = d.fields := by
  obtain ⟨first, joined, filtered, hs, hr, hf, rfl⟩ := build_eq_ok h
  obtain ⟨predicates, -, rfl⟩ := addParameters_eq_ok hf
  have hj := addRelations_frame hr
  have hfirst := start_eq_ok hs
  rw [hj, hfirst]
  exact ⟨rfl, rfl, rfl, rfl, rfl⟩

end Plan
end EntityQuery
