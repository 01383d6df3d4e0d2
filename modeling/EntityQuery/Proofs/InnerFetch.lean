import EntityQuery.Proofs.Agreement
import EntityQuery.Proofs.InnerJoins
/-!
Fetches over an inner join and over its outer form. The key of the target is there in each joined row that
has the target, so the filter of the outer form keeps the matches of the query, row for row; from the same
matches come the same entities and the same count.
-/
namespace EntityQuery

variable {s : Schema} {db : Database}

namespace Plan

open JoinedRow

variable {p q : Plan} {js : List ResolvedJoin} {o : Occurrence} {column : Column}

/-- A filter on a key asks whether a joined row has the entity. -/
theorem holds_isNotNull (hs : s.WellFormed) (hdb : db.Sound s) {o : Occurrence}
    (ho : o.entity ∈ s.entities) {column : Column} (hcolumn : column ∈ o.entity.keyColumns)
    {row : JoinedRow} (hstored : ∀ r, row.rowAt o.position = some r → r ∈ db.rows o.entity.table) :
    (Predicate.nullTest false ⟨.entity o.position, o.aliasName, column⟩).holds row =
      (row.rowAt o.position).isSome := by
  have hcell : row.get ⟨.entity o.position, o.aliasName, column⟩ =
      ((row.rowAt o.position).getD []).get column.name := rfl
  unfold Predicate.holds Predicate.eval
  rw [hcell]
  cases hr : row.rowAt o.position with
  | none => rfl
  | some r =>
    have hpresent := hdb.key_present hs ho (hstored r hr) hcolumn
    cases hkey : r.get column.name <;> simp_all [Cell.isNull]

/-- What the plan of an outer form has in common with the plan of its query. -/
structure OuterForm (s : Schema) (p q : Plan) (o : Occurrence) (column : Column) : Prop where
  plan : ∃ predicates, q = { p.outerAt o.aliasName with predicates := predicates }
  predicates : ∀ row : JoinedRow, q.predicates.all (·.holds row) = (p.predicates.all (·.holds row) &&
    (Predicate.nullTest false ⟨.entity o.position, o.aliasName, column⟩).holds row)
  key : column ∈ o.entity.keyColumns
  place : p.occurrence? o.position = some o
  joined : 0 < o.position
  inner : ∀ j ∈ p.joins, j.aliasName = o.aliasName → j.joinType = .inner

namespace OuterForm

theorem resolveJoins (h : OuterForm s p q o column) (hj : p.resolveJoins = .ok js) :
    q.resolveJoins = .ok (js.map (ResolvedJoin.outerAt o.aliasName)) := by
  obtain ⟨predicates, rfl⟩ := h.plan
  rw [resolveJoins_predicates, resolveJoins_outerAt, hj]
  rfl

/-- Alias and place tell the join that the outer form changes. -/
theorem alias_iff (h : OuterForm s p q o column) (hp : p.Layout s) (hst : Staged s p 0 js) :
    ∀ j ∈ js, j.target.aliasName = o.aliasName ↔ j.target.position = o.position := by
  intro j hj
  have htarget := (target_of_position hst hj).2
  constructor
  · intro halias
    have hname := occurrence?_name hp htarget
    rw [halias, occurrence?_name hp h.place] at hname
    rw [Option.some.inj hname]
  · intro hposition
    rw [hposition, h.place] at htarget
    rw [Option.some.inj htarget]

theorem inner_of_alias (h : OuterForm s p q o column) (hp : p.Layout s)
    (hj : p.resolveJoins = .ok js) : ∀ j ∈ js, j.target.aliasName = o.aliasName → j.outer = false := by
  intro j hmem halias
  obtain ⟨clause, hclause, hname, -, -, houter, -⟩ :=
    exists_of_forall₂ (resolveJoins_eq_ok hp hj).2 hmem
  rw [houter, h.inner clause hclause (hname.symm.trans halias)]
  rfl

theorem occurrence_eq (h : OuterForm s p q o column) : q.occurrence? o.position = some o := by
  obtain ⟨predicates, rfl⟩ := h.plan
  exact (occurrence?_outerAt p o.aliasName o.position).trans h.place

theorem exists_changed (h : OuterForm s p q o column) (hp : p.Layout s)
    (hj : p.resolveJoins = .ok js) : ∃ j ∈ js, j.target.position = o.position := by
  obtain ⟨hst, hfollows⟩ := resolveJoins_eq_ok hp hj
  have hle := lt_of_occurrence?_eq_some h.place
  obtain ⟨j, hj, ho⟩ := exists_join hst h.joined (by
    rw [hfollows.length_eq] at hle
    omega)
  exact ⟨j, hj, by rw [Option.some.inj (h.place.symm.trans ho)]⟩

/-- The join that the outer form changes is an inner one, and its condition beside a link table
narrows the target. -/
theorem narrows_changed (h : OuterForm s p q o column) (hs : s.WellFormed)
    (hroot : p.root ∈ s.entities) (hp : p.Layout s) (hnamed : p.ConditionsNamed)
    (hj : p.resolveJoins = .ok js) (hresolves : resolvesFrom s (p.scopeOf js) [] js = true)
    (hresolves' : resolvesFrom s (p.scopeOf js) [] (js.map (ResolvedJoin.outerAt o.aliasName)) = true) :
    ∀ j ∈ js, j.target.position = o.position → j.outer = false ∧ j.NarrowsTarget := by
  have hst := (resolveJoins_eq_ok hp hj).1
  have hbefore : ∀ k ≤ 0, ∀ o, p.occurrence? k = some o →
      o.entity ∈ s.entities ∧ (o.aliasName, o.entity.table) ∈ [(p.rootAlias, p.root.table)] := by
    intro k hk o ho
    obtain rfl : k = 0 := by omega
    cases ho
    exact ⟨hroot, List.mem_singleton.mpr rfl⟩
  intro j hmem hposition
  have halias := (h.alias_iff hp hst j hmem).mpr hposition
  have hinner := h.inner_of_alias hp hj j hmem halias
  exact ⟨hinner, narrowsTarget_of_resolves hs hst hbefore
    (fun j hmem extra hextra c hc => names_extra hp hnamed hj hmem hextra hc) hresolves hresolves'
    j hmem halias hinner⟩

/-- The joined rows of the outer form that have the target are those of the query. -/
theorem filter_joined (db : Database) (h : OuterForm s p q o column) (hp : p.Layout s)
    (hj : p.resolveJoins = .ok js)
    (hnarrows : ∀ j ∈ js, j.target.position = o.position → j.outer = false ∧ j.NarrowsTarget) :
    ((q.joined (js.map (ResolvedJoin.outerAt o.aliasName))).rows db).filter
      (fun row => (row.rowAt o.position).isSome) = (p.joined js).rows db := by
  have hst := (resolveJoins_eq_ok hp hj).1
  have hroots : q.rootRows db = p.rootRows db := by
    obtain ⟨predicates, rfl⟩ := h.plan
    rfl
  rw [rows_joined, rows_joined, hroots, List.filter_flatMap]
  refine List.flatMap_congr fun r _ => ?_
  have hpresent : ∀ x : JoinedRow, (rowAt ((.entity 0, r) :: x) o.position).isSome =
      (x.rowAt o.position).isSome := fun x => by
    rw [← List.singleton_append, rowAt_append_upTo h.joined (upTo_root r)]
  rw [List.filter_map]
  simp only [Function.comp_def, hpresent]
  rw [filter_extensions hst (upTo_root r) (h.alias_iff hp hst) (h.exists_changed hp hj) hnarrows]

/-- The conditions of the outer form are those of the query, and that the row has the target. -/
theorem all_conditions (h : OuterForm s p q o column) (hs : s.WellFormed) (hdb : db.Sound s)
    (hroot : p.root ∈ s.entities) (hp : p.Layout s) {row : JoinedRow}
    (hstored : ∀ r, row.rowAt o.position = some r → r ∈ db.rows o.entity.table) :
    q.conditions.all (·.holds row) =
      (p.conditions.all (·.holds row) && (row.rowAt o.position).isSome) := by
  have hfamily : ∃ family : List Predicate, q.conditions = q.predicates ++ family ∧
      p.conditions = p.predicates ++ family := by
    obtain ⟨predicates, rfl⟩ := h.plan
    exact ⟨_, rfl, rfl⟩
  obtain ⟨family, hq, hp'⟩ := hfamily
  rw [hq, hp', List.all_append, List.all_append, h.predicates,
    holds_isNotNull hs hdb (entity_of_occurrence? hp hroot h.place) h.key hstored]
  cases p.predicates.all (·.holds row) <;> simp [Bool.and_comm]

/-- The matches of the outer form are those of the query. -/
theorem matched (h : OuterForm s p q o column) (hs : s.WellFormed) (hdb : db.Sound s)
    (hroot : p.root ∈ s.entities) (hp : p.Layout s) (hnamed : p.ConditionsNamed)
    (hj : p.resolveJoins = .ok js)
    (hq : Staged s q 0 (js.map (ResolvedJoin.outerAt o.aliasName)))
    (hresolves : resolvesFrom s (p.scopeOf js) [] js = true)
    (hresolves' : resolvesFrom s (p.scopeOf js) [] (js.map (ResolvedJoin.outerAt o.aliasName)) = true) :
    q.matched db (js.map (ResolvedJoin.outerAt o.aliasName)) = p.matched db js := by
  have hrows := h.filter_joined db hp hj
    (h.narrows_changed hs hroot hp hnamed hj hresolves hresolves')
  have hconditions : ∀ row ∈ (q.joined (js.map (ResolvedJoin.outerAt o.aliasName))).rows db,
      q.conditions.all (·.holds row) =
        (p.conditions.all (·.holds row) && (row.rowAt o.position).isSome) := fun row hrow =>
    h.all_conditions hs hdb hroot hp fun r hr => stored_of_joined hq hrow h.occurrence_eq hr
  unfold Plan.matched
  rw [← hrows, List.filter_filter, List.filter_congr hconditions]

/-- Both plans load the same selection into the same results. -/
theorem loadTree (h : OuterForm s p q o column) (js : List ResolvedJoin) :
    q.loadTree (js.map (ResolvedJoin.outerAt o.aliasName)) = p.loadTree js := by
  obtain ⟨predicates, rfl⟩ := h.plan
  exact loadTree_map (ResolvedJoin.keeps_outerAt o.aliasName) p js

theorem shape (h : OuterForm s p q o column) (db : Database) (hydration : Hydration) (g : Graph)
    (roots : List EntityKey) :
    Repository.shape db q hydration g roots = Repository.shape db p hydration g roots := by
  obtain ⟨predicates, hq⟩ := h.plan
  have hindex : q.indexBy = p.indexBy := by rw [hq]; rfl
  have hunfolding : Repository.unfolding db q = Repository.unfolding db p := by
    have hcollection : q.collectionIndex = (p.outerAt o.aliasName).collectionIndex := by
      rw [hq]
      rfl
    unfold Repository.unfolding
    rw [hcollection, collectionIndex_outerAt]
  unfold Repository.shape Repository.hydrate Repository.hydrateIndexed
  rw [hindex, hunfolding]

end OuterForm

/-- The plan of the outer form of a query is an outer form of its plan. -/
theorem outerForm_of_build {operators : OperatorTable Operator} {root : Entity} {d : Descriptor}
    {key field : String} {options : RelationOptions} {v : Value} (hs : s.WellFormed)
    (hids : s.Identifiers) (hroot : root ∈ s.entities) (hd : d.DistinctAliases root)
    (hrel : d.relations.find? key = some options) (hinner : options.joinType = .inner)
    (hcolon : ':' ∉ (joinAlias key options).toList)
    (hoperator : operators.resolve "isnotnull" = .ok .isNotNull)
    (hp : (build s operators root d).plan = .ok p)
    (hkey : ∀ target, p.names.find? (joinAlias key options) = some target →
      ∃ c ∈ target.entity.keyColumns, c.field = field)
    (hq : (build s operators root (d.outerForm key options field v)).plan = .ok q) :
    ∃ target c, OuterForm s p q target c := by
  have hlayout := layout_build hd hp
  obtain rfl : p.root = root := (build_frame hp).1
  have hjoins := build_joins hp
  obtain ⟨i, hi, hentry⟩ := List.mem_iff_getElem.mp (Descriptor.mem_relations hrel)
  have hi' : i < p.joins.length := hjoins.length_eq ▸ hi
  have hasked : Asked p.root (key, options) p.joins[i] := hentry ▸ hjoins.get hi hi'
  have hj : p.joins[i]? = some p.joins[i] := List.getElem?_eq_getElem hi'
  have halias : ((p.joins[i]).occurrence i).aliasName = joinAlias key options := hasked.aliasName
  have hplace : p.occurrence? (i + 1) = some ((p.joins[i]).occurrence i) := by
    simp [occurrence?, hj]
  have hname := hlayout.join_name i _ hj
  have htarget := entity_of_occurrence? hlayout hroot hplace
  obtain ⟨c, hc, rfl⟩ := hkey _ (hasked.aliasName ▸ hname)
  have hcolumn := (List.mem_filter.mp hc).1
  have hfield := hids.column htarget hcolumn
  have hfilter : ∀ w, p.parameterPredicate operators
      (joinAlias key options ++ "." ++ c.field ++ ":" ++ "isnotnull") w =
        .ok (.nullTest false ⟨.entity (i + 1), joinAlias key options, c⟩) := by
    rw [← halias]
    refine parameterPredicate_isNotNull hoperator hids hroot hname ?_ (halias ▸ hcolon) hfield ?_
    · rw [halias]
      exact joinAlias_of_layout hids hlayout hroot hj hasked
    · rw [Occurrence.column?, column?_of_mem hs htarget hcolumn]
      rfl
  obtain ⟨predicates, hplan, hall⟩ := build_outerForm hd hrel hp hfilter hq
  refine ⟨(p.joins[i]).occurrence i, c, ⟨predicates, halias ▸ hplan⟩, ?_, hc, hplace,
    Nat.succ_pos i, fun j hmem hsame => ?_⟩
  · rw [hplan, halias]
    exact hall
  · have hnodup := (List.nodup_cons.mp hlayout.distinct).2
    have hsame' : j.aliasName = (p.joins[i]).aliasName := hsame
    rw [List.inj_on_of_nodup_map hnodup hmem (List.getElem_mem hi') hsame', hasked.joinType]
    exact hinner

end Plan

namespace Repository

open Plan

variable {r : Repository} {d : Descriptor} {p q : Plan}

/-- The names in the join conditions of a selection that has been run resolve. -/
theorem resolvesFrom_of_load {o : Outline} (hst : p.Staged s 0 o.1) {out : List EntityKey × Graph}
    (h : load s db p o = .ok out) : resolvesFrom s (p.scopeOf o.1) [] o.1 = true := by
  obtain ⟨selection, hsel, hcheck, -⟩ := load_eq_ok h
  cases assemble_eq_ok hst hsel
  have hresolves := Select.resolves_of_check hcheck
  simp only [Select.resolves, List.flatMap_singleton, scope_joined, List.all_cons, List.all_nil,
    resolves_joined, Bool.and_true, Bool.and_eq_true] at hresolves
  exact hresolves.1.1.2

section

variable {target : Occurrence} {column : Column} {o o' : Outline} {x y : List EntityKey × Graph}

/-- A query and its outer form have the same matches, and load the same from them. -/
theorem load_outerForm (h : OuterForm s p q target column) (hs : s.WellFormed) (hdb : db.Sound s)
    (hroot : p.root ∈ s.entities) (hp : p.Layout s) (hq : q.Layout s) (hnamed : p.ConditionsNamed)
    (ho : p.outline = .ok o) (ho' : q.outline = .ok o') (hx : load s db p o = .ok x)
    (hy : load s db q o' = .ok y) : q.matched db o'.1 = p.matched db o.1 ∧ y = x := by
  obtain ⟨hj, horder⟩ := outline_eq_ok ho
  obtain ⟨hj', horder'⟩ := outline_eq_ok ho'
  have hst := (resolveJoins_eq_ok hp hj).1
  have hst' := (resolveJoins_eq_ok hq hj').1
  have hjoins : o'.1 = o.1.map (ResolvedJoin.outerAt target.aliasName) :=
    Except.ok.inj (hj'.symm.trans (h.resolveJoins hj))
  obtain ⟨predicates, hplan⟩ := h.plan
  have hsame : o'.2 = o.2 := by
    have : q.orderColumns = p.orderColumns := by rw [hplan]; rfl
    exact Except.ok.inj (horder'.symm.trans (this.trans horder))
  have hscope : q.scopeOf o'.1 = p.scopeOf o.1 := by
    have : q.scopeOf o'.1 = p.scopeOf o'.1 := by rw [hplan]; rfl
    rw [this, hjoins, scopeOf, namesFrom_outerAt]
    rfl
  have hresolves' := resolvesFrom_of_load hst' hy
  rw [hscope, hjoins] at hresolves'
  rw [hjoins] at hst' ⊢
  have hmatched := h.matched hs hdb hroot hp hnamed hj hst' (resolvesFrom_of_load hst hx) hresolves'
  refine ⟨hmatched, ?_⟩
  have hrows := loadRows_of_load hst hx
  have hrows' := loadRows_of_load (hjoins.symm ▸ hst') hy
  have hbounds : q.limit = p.limit ∧ q.offset = p.offset := by rw [hplan]; exact ⟨rfl, rfl⟩
  rw [hjoins, h.loadTree, hbounds.1, hbounds.2, hsame, sorted, hmatched] at hrows'
  exact Except.ok.inj (hrows'.symm.trans hrows)

end

/-- An inner join against a left join with a filter on the key of its target: the same answer, and the
same count. -/
theorem fetchAll_outerForm {key field : String} {options : RelationOptions} {v : Value}
    (hs : s.WellFormed) (hids : s.Identifiers) (hdb : db.Sound s)
    (hroot : r.builder.root ∈ s.entities) (hd : d.DistinctAliases r.builder.root)
    (hrel : d.relations.find? key = some options) (hinner : options.joinType = .inner)
    (hcolon : ':' ∉ (joinAlias key options).toList)
    (hkey : ∀ p target, planOf s r d = .ok p → p.names.find? (joinAlias key options) = some target →
      ∃ c ∈ target.entity.keyColumns, c.field = field)
    (hoperator : r.builder.operators.resolve "isnotnull" = .ok .isNotNull)
    (hf : r.ReadsAfresh d) (hf' : r.ReadsAfresh (d.outerForm key options field v)) {a b : Answer}
    (ha : (run r (fetchAll s db (.descriptor d))).1 = .ok a)
    (hb : (run r (fetchAll s db (.descriptor (d.outerForm key options field v)))).1 = .ok b) :
    b = a ∧ (d.limit = none → d.offset = none → d.indexBy = none →
      ∃ n, (run r (count s db (.descriptor d))).1 = .ok n ∧
        (run r (count s db (.descriptor (d.outerForm key options field v)))).1 = .ok n) := by
  obtain ⟨p, o, roots, g, items, hp, ho, hload, hshape, hend⟩ := fetchAll_eq_ok hf ha
  obtain ⟨q, o', roots', g', items', hq, ho', hload', hshape', hend'⟩ := fetchAll_eq_ok hf' hb
  obtain ⟨target, c, hform⟩ := outerForm_of_build hs hids hroot hd hrel hinner hcolon hoperator hp
    (fun target h => hkey p target hp h) hq
  have hlayout := layout_build hd hp
  have hlayout' := layout_build (Descriptor.distinctAliases_outerForm hd hrel field v) hq
  obtain ⟨hproot, hplimit, hpoffset, hpindex, -⟩ := build_frame hp
  obtain ⟨hqroot, hqlimit, hqoffset, hqindex, -⟩ := build_frame hq
  obtain ⟨hmatched, hsame⟩ := load_outerForm hform hs hdb (hproot.symm ▸ hroot) hlayout hlayout'
    (conditionsNamed_build hd hp) ho ho' hload hload'
  obtain ⟨rfl, rfl⟩ := Prod.mk.inj hsame
  have hj := (outline_eq_ok ho).1
  have hj' := (outline_eq_ok ho').1
  have hst := (resolveJoins_eq_ok hlayout hj).1
  have hst' := (resolveJoins_eq_ok hlayout' hj').1
  have hkeys : (q.matched db o'.1).map q.rootKey = (p.matched db o.1).map p.rootKey := by
    have : q.rootKey = p.rootKey := by
      funext row
      simp only [rootKey, Plan.rootAlias, hqroot, hproot]
    rw [hmatched, this]
  constructor
  · have hitems : items' = items := by
      rw [hform.shape] at hshape'
      exact Except.ok.inj (hshape'.symm.trans hshape)
    rcases hend with ⟨hpage, rfl⟩ | ⟨hpage, total, htotal, rfl⟩
    · rcases hend' with ⟨-, rfl⟩ | ⟨hpage', -⟩
      · rw [hitems]
      · exact absurd (hpage.symm.trans hpage') Bool.false_ne_true
    · rcases hend' with ⟨hpage', -⟩ | ⟨-, total', htotal', rfl⟩
      · exact absurd (hpage'.symm.trans hpage) Bool.false_ne_true
      · rw [hitems, countRows_eq_ok hj' hst' htotal', countRows_eq_ok hj hst htotal, hkeys]
        rfl
  · intro _ _ _
    refine ⟨_, count_of_countRows hp (exists_countRows hst hj hload), ?_⟩
    rw [← hkeys]
    exact count_of_countRows hq (exists_countRows hst' hj' hload')

/-- The products tagged as steel, each with all products under its tag. -/
def steelProducts : Descriptor where
  relations := .ofList
    [("tags", { joinType := .inner
                condition := .condition (.compareValue .equal "tags.label" (.text "steel")) }),
     ("tags.products", { joinAlias := some "others" })]

theorem fetchAll_steelProducts : ∃ options items n, items.length = 2 ∧
    steelProducts.relations.find? "tags" = some options ∧
      (run (ofRoot Model.Shop.product)
        (fetchAll Model.sample Model.sampleRows (.descriptor steelProducts))).1 =
          .ok (.plain (.list items)) ∧
      (run (ofRoot Model.Shop.product) (fetchAll Model.sample Model.sampleRows
        (.descriptor (steelProducts.outerForm "tags" options "id" .null)))).1 =
          .ok (.plain (.list items)) ∧
      (run (ofRoot Model.Shop.product)
        (count Model.sample Model.sampleRows (.descriptor steelProducts))).1 = .ok n ∧
      (run (ofRoot Model.Shop.product) (count Model.sample Model.sampleRows
        (.descriptor (steelProducts.outerForm "tags" options "id" .null)))).1 = .ok n := by
  obtain ⟨options, hrel, hinner, hcolon, hread, hplan⟩ : ∃ options,
      steelProducts.relations.find? "tags" = some options ∧ options.joinType = .inner ∧
        ':' ∉ (joinAlias "tags" options).toList ∧
          (readUnsorted Model.sample Model.sampleRows (ofRoot Model.Shop.product)
            (steelProducts.outerForm "tags" options "id" .null)).toOption.isSome = true ∧
          ∀ p ∈ (planOf Model.sample (ofRoot Model.Shop.product) steelProducts).toOption,
            ∀ target ∈ p.names.find? (joinAlias "tags" options),
              ∃ c ∈ target.entity.keyColumns, c.field = "id" :=
    ⟨_, rfl, rfl, by decide +kernel, by decide +kernel, by decide +kernel⟩
  obtain ⟨outer, houter⟩ := exists_ok_of_toOption hread
  have hread' : (readUnsorted Model.sample Model.sampleRows (ofRoot Model.Shop.product)
      steelProducts).toOption.bind listed = some 2 := by decide +kernel
  obtain ⟨fetched, hfetched, hlength⟩ := Option.bind_eq_some_iff.mp hread'
  cases fetched with
  | list items =>
    have ha : (run (ofRoot Model.Shop.product)
        (fetchAll Model.sample Model.sampleRows (.descriptor steelProducts))).1 =
          .ok (.plain (.list items)) := by
      rw [fetchAll_unsorted _ _ _ rfl rfl rfl, eq_ok_of_toOption hfetched]
      rfl
    have hb : (run (ofRoot Model.Shop.product) (fetchAll Model.sample Model.sampleRows
        (.descriptor (steelProducts.outerForm "tags" options "id" .null)))).1 =
          .ok (.plain outer) := by
      rw [fetchAll_unsorted _ _ _ rfl rfl rfl, houter]
      rfl
    obtain ⟨hsame, hcount⟩ := fetchAll_outerForm sample_wellFormed (by decide +kernel)
      sampleRows_sound (r := ofRoot Model.Shop.product) (d := steelProducts) (by decide +kernel)
      (by decide +kernel) hrel hinner hcolon
      (fun p target hp htarget => hplan p (by rw [hp]; rfl) target htarget) rfl
      (readsAfresh_of_uncached rfl) (readsAfresh_of_uncached rfl) ha hb
    obtain ⟨n, hn, hn'⟩ := hcount rfl rfl rfl
    exact ⟨options, items, n, Option.some.inj hlength, hrel, ha, hsame ▸ hb, hn, hn'⟩
  | single item => cases hlength
  | indexed entries => cases hlength

end Repository
end EntityQuery
