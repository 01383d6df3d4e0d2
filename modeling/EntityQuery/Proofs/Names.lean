import EntityQuery.Model.Sample
import EntityQuery.Proofs.Sources
import EntityQuery.Proofs.Unsorted
/-!
The names of a plan and the entities in its statement. A join takes its alias over from whatever
stood under it before, so a name stands for the last occurrence under it. Each name stands for every
occurrence under it exactly if no alias is given twice; then filters and sort entries reach the
entities that their aliases name.
-/
namespace EntityQuery

/-- The column of a field, or the error that names the entity without it. -/
def Occurrence.fieldColumn (o : Occurrence) (field : String) : Except QueryError ColumnRef :=
  match o.column? field with
  | some c => .ok c
  | none => .error (.unknownField field o.entity.fullName)

namespace Plan

variable {s : Schema} {p q : Plan}

/-- What stands in the statement of a plan: its root, then what its joins bring. -/
def occurrences (p : Plan) : List Occurrence :=
  rootOccurrence p.root :: p.joins.mapIdx fun i j => j.occurrence i

/-- The last occurrence under an alias. -/
def lastUnder? (p : Plan) (a : String) : Option Occurrence :=
  (p.occurrences.filter (·.aliasName == a)).getLast?

/-- The names of a plan agree with its statement: the alias of the root stands for the root, and the
alias of each join for what this join brings. -/
structure NamesAgree (p : Plan) : Prop where
  root_name : p.names.find? p.rootAlias = some (rootOccurrence p.root)
  join_name : ∀ i (j : JoinClause), p.joins[i]? = some j →
    p.names.find? j.aliasName = some (j.occurrence i)

/-- Filters and sort entries reach the entities in the statement that their aliases name. A sort entry
is divided at its first dot, and no entry is sorted by under the alias of the root. -/
structure ReachesNamed (s : Schema) (p : Plan) : Prop where
  filter_bare : ∀ field : String, '.' ∉ field.toList →
    p.column field = (rootOccurrence p.root).fieldColumn field
  filter_named : ∀ k (o : Occurrence) (field : String), p.occurrence? k = some o → o.aliasName ≠ "" →
    '.' ∉ field.toList → p.column (o.aliasName ++ "." ++ field) = o.fieldColumn field
  sort_bare : ∀ (field : String) dir, '.' ∉ field.toList →
    p.sortClause? s field dir =
      if p.root.hasField field then some ⟨p.rootAlias, field, dir⟩ else none
  sort_root : ∀ field dir, '.' ∉ p.rootAlias.toList →
    p.sortClause? s (p.rootAlias ++ "." ++ field) dir = none
  sort_named : ∀ (i : Nat) (j : JoinClause) field dir, p.joins[i]? = some j → '.' ∉ j.aliasName.toList →
    p.sortClause? s (j.aliasName ++ "." ++ field) dir =
      if j.target.hasField field then some ⟨j.aliasName, field, dir⟩ else none
  order_named : ∀ name dir (c : OrderClause), p.sortClause? s name dir = some c →
    ∃ k o column, p.occurrence? k = some o ∧ o.aliasName = c.aliasName ∧
      o.column? c.field = some column ∧ p.orderColumn c = .ok (column, dir)

theorem getElem?_occurrences (p : Plan) (k : Nat) : p.occurrences[k]? = p.occurrence? k := by
  cases k with
  | zero => rfl
  | succ k => simp [occurrences, occurrence?]

theorem map_aliasName_occurrences (p : Plan) :
    p.occurrences.map (·.aliasName) = p.aliasNames := by
  refine congrArg (p.rootAlias :: ·) (List.ext_getElem? fun i => ?_)
  rw [List.getElem?_map, List.getElem?_mapIdx, List.getElem?_map, Option.map_map]
  rfl

theorem occurrences_append {j : JoinClause} (hr : q.root = p.root) (hj : q.joins = p.joins ++ [j]) :
    q.occurrences = p.occurrences ++ [j.occurrence p.joins.length] := by
  simp [occurrences, hr, hj, List.mapIdx_append]

/-- A name stands for the last occurrence under it. -/
def NamesLast (p : Plan) : Prop := ∀ a, p.names.find? a = p.lastUnder? a

theorem namesLast_ofRoot (root : Entity) : (ofRoot root).NamesLast := by
  intro a
  by_cases ha : a = root.aliasName
  · subst ha
    exact (OrderedMap.find?_insert_self _ _ _).trans
      (by simp [lastUnder?, occurrences, ofRoot, rootOccurrence])
  · refine (OrderedMap.find?_insert_of_ne _ _ ha).trans ?_
    have hne : (root.aliasName == a) = false := beq_false_of_ne fun e => ha e.symm
    simp [lastUnder?, occurrences, ofRoot, rootOccurrence, hne, OrderedMap.find?]

theorem namesLast_addRelation (hp : p.NamesLast) {key : String} {o : RelationOptions}
    (h : p.addRelation s key o = .ok q) : q.NamesLast := by
  obtain ⟨target, condition, fields, -, -, -, -, hq⟩ := addRelation_eq_ok h
  have hnames : q.names = p.withTarget (joinAlias key o) target := congrArg Plan.names hq
  have hjoins : q.joins = p.joins ++ [p.joinClause key o target condition fields] :=
    congrArg Plan.joins hq
  have hroot : q.root = p.root := by rw [hq]
  have hoccurrences := occurrences_append hroot hjoins
  intro a
  rw [hnames, lastUnder?, hoccurrences, List.filter_append]
  by_cases ha : a = joinAlias key o
  · subst ha
    refine (OrderedMap.find?_insert_self _ _ _).trans ?_
    simp [JoinClause.occurrence, joinClause]
  · refine (OrderedMap.find?_insert_of_ne _ _ ha).trans ((hp a).trans ?_)
    have hne : (joinAlias key o == a) = false := beq_false_of_ne fun e => ha e.symm
    simp [lastUnder?, JoinClause.occurrence, joinClause, hne]

theorem namesLast_addRelations {relations : List (String × RelationOptions)} (hp : p.NamesLast)
    (h : p.addRelations s relations = (q, none)) : q.NamesLast := by
  induction relations generalizing p with
  | nil =>
    cases h
    exact hp
  | cons e rest ih =>
    obtain ⟨next, hr, h⟩ := addRelations_cons_eq_ok.mp h
    exact ih (namesLast_addRelation hp hr) h

theorem namesLast_build {operators : OperatorTable Operator} {root : Entity} {d : Descriptor}
    (h : (build s operators root d).plan = .ok p) : p.NamesLast := by
  obtain ⟨first, joined, filtered, hs, hr, hf, rfl⟩ := build_eq_ok h
  obtain ⟨predicates, -, rfl⟩ := addParameters_eq_ok hf
  have hfirst : first.NamesLast := by
    rw [start_eq_ok hs]
    exact namesLast_ofRoot root
  have hjoined : joined.NamesLast := namesLast_addRelations hfirst hr
  exact hjoined

theorem aliasNames_build {operators : OperatorTable Operator} {root : Entity} {d : Descriptor}
    (h : (build s operators root d).plan = .ok p) :
    p.aliasNames = root.aliasName :: d.joinAliases := by
  have haliases : ∀ {entries js}, List.Forall₂ (Asked root) entries js →
      js.map (·.aliasName) = entries.map fun e => joinAlias e.1 e.2 := by
    intro entries js hjs
    induction hjs with
    | nil => rfl
    | cons hj _ ih => rw [List.map_cons, List.map_cons, hj.aliasName, ih]
  rw [aliasNames, rootAlias, (build_frame h).1, haliases (build_joins h)]
  rfl

theorem NamesAgree.find? (hp : p.NamesAgree) {k : Nat} {o : Occurrence}
    (h : p.occurrence? k = some o) : p.names.find? o.aliasName = some o := by
  cases k with
  | zero =>
    cases h
    exact hp.root_name
  | succ k =>
    obtain ⟨j, hj, rfl⟩ := Option.map_eq_some_iff.mp h
    exact hp.join_name k j hj

/-- Two occurrences under one alias cannot both be what the alias stands for. -/
theorem NamesAgree.nodup_aliasNames (hp : p.NamesAgree) : p.aliasNames.Nodup := by
  rw [← map_aliasName_occurrences, List.nodup_iff_getElem?_ne_getElem?]
  intro i k hik hk heq
  rw [List.length_map] at hk
  have hsome : ∀ n < p.occurrences.length, ∃ o, p.occurrence? n = some o := fun n hn =>
    ⟨p.occurrences[n], by rw [← getElem?_occurrences, List.getElem?_eq_getElem hn]⟩
  obtain ⟨a, ha⟩ := hsome i (by omega)
  obtain ⟨b, hb⟩ := hsome k hk
  rw [List.getElem?_map, List.getElem?_map, getElem?_occurrences, getElem?_occurrences, ha, hb]
    at heq
  have hab : a.aliasName = b.aliasName := Option.some.inj heq
  -- the alias stands for both occurrences, which are at different places
  have hsame : a = b := Option.some.inj ((hp.find? ha).symm.trans (hab ▸ hp.find? hb))
  have hposition := (occurrence?_position ha).symm.trans (hsame ▸ occurrence?_position hb)
  omega

theorem Layout.namesAgree (hp : p.Layout s) : p.NamesAgree := ⟨hp.root_name, hp.join_name⟩

theorem column_of_splitPath {path : String} {o : Occurrence} {field : String}
    (hsplit : p.splitPath path = (o.aliasName, field))
    (ho : p.names.find? o.aliasName = some o) : p.column path = o.fieldColumn field := by
  unfold column
  simp only [hsplit, ho, Occurrence.fieldColumn]
  split <;> simp_all

theorem findJoin_eq_some (hp : p.Layout s) {i : Nat} {j : JoinClause} (hj : p.joins[i]? = some j) :
    p.findJoin j.aliasName = some j := by
  obtain ⟨k, hk⟩ : ∃ k, p.findJoin j.aliasName = some k := by
    rw [← Option.isSome_iff_exists, findJoin, List.find?_isSome]
    exact ⟨j, List.mem_of_getElem? hj, by simp⟩
  have hname : k.aliasName = j.aliasName := by simpa using List.find?_some hk
  obtain ⟨n, hn⟩ := List.mem_iff_getElem?.mp (List.mem_of_find?_eq_some hk)
  have hsame := (hp.join_name n k hn).symm.trans (hname ▸ hp.join_name i j hj)
  have hplace : n + 1 = i + 1 := congrArg Occurrence.position (Option.some.inj hsame)
  have hni : n = i := by omega
  rw [hk, ← hn, hni, hj]

theorem sortTarget?_eq_some (hp : p.Layout s) {i : Nat} {j : JoinClause}
    (hj : p.joins[i]? = some j) : p.sortTarget? s j = some j.target := by
  obtain ⟨k, -, o, r, ho, hoa, hr, ht⟩ := hp.source i j hj
  have hfind : p.names.find? j.sourceAlias = some o := hoa ▸ hp.namesAgree.find? ho
  simp [sortTarget?, hfind, hr, ht]

theorem sortClause?_join (hp : p.Layout s) {i : Nat} {j : JoinClause} (hj : p.joins[i]? = some j)
    {name field : String} (hname : Text.splitFirstDot? name = some (j.aliasName, field))
    (dir : Direction) : p.sortClause? s name dir =
      if j.target.hasField field then some ⟨j.aliasName, field, dir⟩ else none := by
  simp [sortClause?, hname, findJoin_eq_some hp hj, sortTarget?_eq_some hp hj]

theorem orderColumn_of_hasField {o : Occurrence} {field : String} (dir : Direction)
    (ho : p.names.find? o.aliasName = some o) (hf : o.entity.hasField field = true) :
    ∃ column, o.column? field = some column ∧
      p.orderColumn ⟨o.aliasName, field, dir⟩ = .ok (column, dir) := by
  obtain ⟨c, hc⟩ := Option.isSome_iff_exists.mp hf
  have hcolumn : o.column? field = some ⟨.entity o.position, o.aliasName, c⟩ := by
    rw [Occurrence.column?, hc]
    rfl
  refine ⟨_, hcolumn, ?_⟩
  simp [orderColumn, ho, hcolumn]

/-- Each clause of the order sorts by a column of the occurrence under its alias. -/
theorem orderColumn_of_sortClause? (hp : p.Layout s) {name : String} {dir : Direction}
    {c : OrderClause} (h : p.sortClause? s name dir = some c) :
    ∃ k o column, p.occurrence? k = some o ∧ o.aliasName = c.aliasName ∧
      o.column? c.field = some column ∧ p.orderColumn c = .ok (column, dir) := by
  have hclause := h
  unfold sortClause? at h
  split at h
  · split at h
    · rename_i hfield
      cases h
      obtain ⟨column, hcolumn, horder⟩ :=
        orderColumn_of_hasField (o := rootOccurrence p.root) dir hp.root_name hfield
      exact ⟨0, _, column, rfl, rfl, hcolumn, horder⟩
    · cases h
  · rename_i a field hname
    obtain ⟨j, hj, -⟩ := Option.bind_eq_some_iff.mp h
    obtain ⟨i, hi⟩ := List.mem_iff_getElem?.mp (List.mem_of_find?_eq_some hj)
    have ha : j.aliasName = a := by simpa using List.find?_some hj
    rw [sortClause?_join hp hi (ha ▸ hname)] at hclause
    split at hclause
    · rename_i hfield
      cases hclause
      obtain ⟨column, hcolumn, horder⟩ :=
        orderColumn_of_hasField (o := j.occurrence i) dir (hp.join_name i j hi) hfield
      exact ⟨i + 1, _, column, by simp [occurrence?, hi], rfl, hcolumn, horder⟩
    · cases hclause

theorem reachesNamed_of_layout (hp : p.Layout s) : p.ReachesNamed s where
  filter_bare field hf :=
    column_of_splitPath (o := rootOccurrence p.root)
      (by simp [splitPath, Text.splitLastDot_dotless hf, rootAlias, rootOccurrence]) hp.root_name
  filter_named k o field ho ha hf :=
    column_of_splitPath (by simp [splitPath, Text.splitLastDot_append hf, ha])
      (hp.namesAgree.find? ho)
  sort_bare field dir hf := by simp [sortClause?, Text.splitFirstDot?_dotless hf]
  sort_root field dir ha := by
    have hnone : p.findJoin p.rootAlias = none := by
      rw [findJoin, List.find?_eq_none]
      intro j hj hname
      exact (List.nodup_cons.mp hp.distinct).1 (List.mem_map.mpr ⟨j, hj, by simpa using hname⟩)
    simp [sortClause?, Text.splitFirstDot?_append ha, hnone]
  sort_named i j field dir hj ha := sortClause?_join hp hj (Text.splitFirstDot?_append ha) dir
  order_named _ _ _ h := orderColumn_of_sortClause? hp h

/-- The names of a built plan stand for the last occurrences under them. They agree with the statement
exactly if no alias is given twice, and then filters and sort entries reach what their aliases name. -/
theorem namesAgree_build_iff {operators : OperatorTable Operator} {root : Entity} {d : Descriptor}
    (h : (build s operators root d).plan = .ok p) :
    (∀ a, p.names.find? a = p.lastUnder? a) ∧ (p.NamesAgree ↔ d.DistinctAliases root) ∧
      (p.NamesAgree → p.ReachesNamed s) := by
  have hdistinct : p.NamesAgree → d.DistinctAliases root := fun hp => by
    have := hp.nodup_aliasNames
    rwa [aliasNames_build h] at this
  exact ⟨namesLast_build h, ⟨hdistinct, fun hd => (layout_build hd h).namesAgree⟩,
    fun hp => reachesNamed_of_layout (layout_build (hdistinct hp) h)⟩

/-- Articles with their authors, who are joined under a given alias. -/
def articlesByAuthor (aliasName : String) : Descriptor where
  relations := .ofList [("author", { joinAlias := some aliasName })]

theorem reachesNamed_articlesByAuthor :
    ∃ p, (build Model.sample .builtIn Model.Blog.article (articlesByAuthor "writer")).plan = .ok p ∧
      p.NamesAgree ∧ p.ReachesNamed Model.sample := by
  have hbuild : (build Model.sample .builtIn Model.Blog.article
      (articlesByAuthor "writer")).plan.toOption.isSome = true := by decide +kernel
  obtain ⟨p, hp⟩ := exists_ok_of_toOption hbuild
  obtain ⟨-, hagree, hreach⟩ := namesAgree_build_iff hp
  have hnames := hagree.mpr (by decide +kernel)
  exact ⟨p, hp, hnames, hreach hnames⟩

/-- Authors that are joined under the alias of the articles take it over: a field of the articles is
looked for among the fields of the authors. -/
theorem not_namesAgree_articlesByAuthor :
    ∃ p, (build Model.sample .builtIn Model.Blog.article (articlesByAuthor "article")).plan = .ok p ∧
      ¬ p.NamesAgree ∧ p.names.find? p.rootAlias = some ⟨1, "article", Model.Blog.user⟩ ∧
      p.root.hasField "views" = true ∧
      (∀ c, p.column "views" ≠ .ok c) := by
  have hbuild : ((build Model.sample .builtIn Model.Blog.article
      (articlesByAuthor "article")).plan.toOption.map fun p =>
        (p.names.find? p.rootAlias, p.root.hasField "views", (p.column "views").toOption)) =
      some (some ⟨1, "article", Model.Blog.user⟩, true, none) := by
    decide +kernel
  obtain ⟨p, hp, hfacts⟩ := Option.map_eq_some_iff.mp hbuild
  simp only [Prod.mk.injEq] at hfacts
  obtain ⟨hname, hfield, hcolumn⟩ := hfacts
  refine ⟨p, eq_ok_of_toOption hp, fun hagree => ?_, hname, hfield, fun c hc => ?_⟩
  · have hplace : (1 : Nat) = 0 :=
      congrArg Occurrence.position (Option.some.inj (hname.symm.trans hagree.root_name))
    cases hplace
  · rw [hc] at hcolumn
    cases hcolumn

end Plan
end EntityQuery
