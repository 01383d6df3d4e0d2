import EntityQuery.Proofs.Names
import EntityQuery.Proofs.Renaming
/-!
The names of sort entries against those of filters. A filter divides its path at the last dot and looks the
alias up, a sort entry is divided at the first dot and looks for a join. With dotless aliases that are
given once they name the same columns, but a sort entry never names the root by an alias.
-/
namespace EntityQuery.Plan

variable {s : Schema} {p : Plan} {n : String} {dir : Direction}

/-- What a partial function gives on a list stands beside the members on which it gives something. -/
theorem forall₂_filterMap {α β : Type} {R : α → β → Prop} {f : α → Option β} {xs : List α}
    (h : ∀ x y, f x = some y → R x y) :
    List.Forall₂ R (xs.filter fun x => (f x).isSome) (xs.filterMap f) := by
  induction xs with
  | nil => exact .nil
  | cons x xs ih =>
    cases hx : f x with
    | none => simpa [hx] using ih
    | some y => simpa [hx] using ⟨h x y hx, ih⟩

/-- A path that names the root by its alias, or by an empty one. -/
def NamesRoot (p : Plan) (path : String) : Prop :=
  ∃ a field, path = a ++ "." ++ field ∧ '.' ∉ field.toList ∧ (a = p.rootAlias ∨ a = "")

theorem dotless_of_hasField (hids : s.Identifiers) {e : Entity} (he : e ∈ s.entities) {field : String}
    (h : e.hasField field = true) : '.' ∉ field.toList := by
  obtain ⟨c, hc⟩ := Option.isSome_iff_exists.mp h
  exact Text.dotless_of_isIdentifier (hids.field he hc)

theorem fieldColumn_eq_ok {o : Occurrence} {field : String} {c : ColumnRef} :
    o.fieldColumn field = .ok c ↔ o.column? field = some c := by
  unfold Occurrence.fieldColumn
  cases o.column? field <;> simp

theorem hasField_of_column? {o : Occurrence} {field : String} {c : ColumnRef}
    (h : o.column? field = some c) : o.entity.hasField field = true := by
  obtain ⟨column, hcolumn, -⟩ := Option.map_eq_some_iff.mp h
  rw [Entity.hasField, hcolumn]
  rfl

/-- A sort entry that is resolved is a bare field of the root, or a field behind the alias of a join. -/
theorem sortClause?_eq_some (hp : p.Layout s) {c : OrderClause} (h : p.sortClause? s n dir = some c) :
    ('.' ∉ n.toList ∧ p.root.hasField n = true ∧ c = ⟨p.rootAlias, n, dir⟩) ∨
      ∃ (i : Nat) (j : JoinClause) (field : String), p.joins[i]? = some j ∧ n = j.aliasName ++ "." ++ field ∧
        j.target.hasField field = true ∧ c = ⟨j.aliasName, field, dir⟩ := by
  have hclause := h
  unfold sortClause? at h
  split at h
  · rename_i hbare
    split at h
    · rename_i hfield
      exact .inl ⟨Text.splitFirstDot?_eq_none hbare, hfield, (Option.some.inj h).symm⟩
    · cases h
  · rename_i a field hname
    obtain ⟨j, hj, -⟩ := Option.bind_eq_some_iff.mp h
    obtain ⟨i, hi⟩ := List.mem_iff_getElem?.mp (List.mem_of_find?_eq_some hj)
    obtain rfl : j.aliasName = a := by simpa using List.find?_some hj
    rw [sortClause?_join hp hi hname] at hclause
    split at hclause
    · rename_i hfield
      exact .inr ⟨i, j, field, hi, Text.splitFirstDot?_eq_some hname, hfield,
        (Option.some.inj hclause).symm⟩
    · cases hclause

variable (hp : p.Layout s) (hids : s.Identifiers) (hroot : p.root ∈ s.entities)
  (hnamed : ∀ j ∈ p.joins, j.aliasName ≠ "")

include hp hids hroot

theorem dotless_of_join {i : Nat} {j : JoinClause} (hj : p.joins[i]? = some j) {field : String}
    (h : j.target.hasField field = true) : '.' ∉ field.toList :=
  dotless_of_hasField hids
    (entity_of_occurrence? (k := i + 1) (o := j.occurrence i) hp hroot (by simp [occurrence?, hj])) h

include hnamed

/-- Every clause of the order sorts by the column that a filter of the same name reaches. -/
theorem column_of_sortClause? {c : OrderClause} (h : p.sortClause? s n dir = some c) :
    ∃ column, p.column n = .ok column ∧ p.orderColumn c = .ok (column, dir) := by
  have hreach := reachesNamed_of_layout hp
  rcases sortClause?_eq_some hp h with ⟨hbare, hfield, rfl⟩ | ⟨i, j, field, hj, rfl, hfield, rfl⟩
  · obtain ⟨column, hcolumn, horder⟩ :=
      orderColumn_of_hasField (o := rootOccurrence p.root) dir hp.root_name hfield
    exact ⟨column, (hreach.filter_bare n hbare).trans (fieldColumn_eq_ok.mpr hcolumn), horder⟩
  · have hoccurrence : p.occurrence? (i + 1) = some (j.occurrence i) := by simp [occurrence?, hj]
    have hfilter := hreach.filter_named _ _ field hoccurrence (hnamed j (List.mem_of_getElem? hj))
      (dotless_of_join hp hids hroot hj hfield)
    obtain ⟨column, hcolumn, horder⟩ :=
      orderColumn_of_hasField (o := j.occurrence i) dir (hp.join_name i j hj) hfield
    exact ⟨column, hfilter.trans (fieldColumn_eq_ok.mpr hcolumn), horder⟩

/-- A sort entry that names the root by an alias is not resolved. -/
theorem sortClause?_of_namesRoot (h : p.NamesRoot n) : p.sortClause? s n dir = none := by
  obtain ⟨a, field, rfl, hfield, ha⟩ := h
  refine Option.eq_none_iff_forall_ne_some.mpr fun c hc => ?_
  rcases sortClause?_eq_some hp hc with ⟨hbare, -, -⟩ | ⟨i, j, other, hj, hname, hother, -⟩
  · exact hbare (by simp)
  · have hsplit := Text.splitLastDot_append (a := a) hfield
    rw [hname, Text.splitLastDot_append (dotless_of_join hp hids hroot hj hother)] at hsplit
    have halias : j.aliasName = a := congrArg Prod.fst hsplit
    have hmem : j ∈ p.joins := List.mem_of_getElem? hj
    rcases ha with ha | ha
    · exact (List.nodup_cons.mp hp.distinct).1 (List.mem_map.mpr ⟨j, hmem, halias.trans ha⟩)
    · exact hnamed j hmem (halias.trans ha)

omit hids hroot hnamed in
/-- What a filter reaches is resolved as a sort entry, unless it names the root by an alias. -/
theorem isSome_sortClause?_of_column (hdotless : ∀ j ∈ p.joins, '.' ∉ j.aliasName.toList)
    {c : ColumnRef} (h : p.column n = .ok c) (hn : ¬ p.NamesRoot n) :
    (p.sortClause? s n dir).isSome = true := by
  have hreach := reachesNamed_of_layout hp
  by_cases hdot : '.' ∈ n.toList
  · have hfield := Text.not_mem_splitLastDot n
    have happend := Text.append_splitLastDot hdot
    generalize (Text.splitLastDot n).1 = a at happend
    generalize (Text.splitLastDot n).2 = field at happend hfield
    subst happend
    have hother : a ≠ p.rootAlias ∧ a ≠ "" :=
      not_or.mp fun ha => hn ⟨a, field, rfl, hfield, ha⟩
    obtain ⟨o, ho⟩ : ∃ o, p.names.find? a = some o := by
      unfold column splitPath at h
      simp only [Text.splitLastDot_append hfield] at h
      cases hfind : p.names.find? a with
      | some o => exact ⟨o, rfl⟩
      | none => simp [hother.2, hfind] at h
    obtain ⟨k, hk, rfl⟩ := hp.named a o ho
    rw [hreach.filter_named k o field hk hother.2 hfield, fieldColumn_eq_ok] at h
    cases k with
    | zero =>
      cases hk
      exact absurd rfl hother.1
    | succ i =>
      obtain ⟨j, hj, rfl⟩ := Option.map_eq_some_iff.mp hk
      have hsort := hreach.sort_named i j field dir hj (hdotless j (List.mem_of_getElem? hj))
      have hhas : j.target.hasField field = true := hasField_of_column? h
      exact hsort ▸ by rw [if_pos hhas]; rfl
  · rw [hreach.filter_bare n hdot, fieldColumn_eq_ok] at h
    have hhas : p.root.hasField n = true := hasField_of_column? h
    rw [hreach.sort_bare n dir hdot, if_pos hhas]
    rfl

omit hp hids hroot hnamed

/-- With dotless aliases that are given once, the sort entries that are resolved are those whose names
reach a column as filters and do not name the root by an alias, and they sort by these columns. -/
theorem resolveSort_column {operators : OperatorTable Operator} {root : Entity} {d : Descriptor}
    (hids : s.Identifiers) (hroot : root ∈ s.entities) (hd : d.DistinctAliases root)
    (hdotless : ∀ a ∈ d.joinAliases, '.' ∉ a.toList)
    (h : (build s operators root d).plan = .ok p) (sort : List (String × Direction)) :
    (∀ e ∈ sort, e ∈ (p.resolveSort s sort).remaining ↔
      p.NamesRoot e.1 ∨ ∀ c, p.column e.1 ≠ .ok c) ∧
    List.Forall₂ (fun e clause => ∃ c, p.column e.1 = .ok c ∧ p.orderColumn clause = .ok (c, e.2))
      (sort.filter fun e => e ∉ (p.resolveSort s sort).remaining) (p.resolveSort s sort).clauses := by
  have hp := layout_build hd h
  obtain rfl : p.root = root := (build_frame h).1
  have haliases : p.joins.map (·.aliasName) = d.joinAliases := (List.cons.inj (aliasNames_build h)).2
  have hdotless' : ∀ j ∈ p.joins, '.' ∉ j.aliasName.toList := fun j hj =>
    hdotless _ (haliases ▸ List.mem_map_of_mem hj)
  have hnamed : ∀ j ∈ p.joins, j.aliasName ≠ "" := fun j hj => by
    obtain ⟨e, -, hasked⟩ := exists_of_forall₂ (build_joins h) hj
    obtain ⟨i, hi⟩ := List.mem_iff_getElem?.mp hj
    exact hasked.aliasName ▸ joinAlias_of_layout hids hp hroot hi hasked
  have hremaining : ∀ e ∈ sort, e ∈ (p.resolveSort s sort).remaining ↔
      p.sortClause? s e.1 e.2 = none := fun e he => by simp [resolveSort, he]
  refine ⟨fun e he => ?_, ?_⟩
  · rw [hremaining e he]
    constructor
    · intro hnone
      refine or_iff_not_imp_left.mpr fun hn c hc => ?_
      have hsome : (p.sortClause? s e.1 e.2).isSome = true :=
        isSome_sortClause?_of_column hp hdotless' hc hn
      rw [hnone] at hsome
      cases hsome
    · rintro (hn | hfails)
      · exact sortClause?_of_namesRoot hp hids hroot hnamed hn
      · refine Option.eq_none_iff_forall_ne_some.mpr fun clause hclause => ?_
        obtain ⟨c, hc, -⟩ := column_of_sortClause? hp hids hroot hnamed hclause
        exact hfails c hc
  · have hkept : (sort.filter fun e => e ∉ (p.resolveSort s sort).remaining) =
        sort.filter fun e => (p.sortClause? s e.1 e.2).isSome :=
      List.filter_congr fun e he => by
        rw [Bool.eq_iff_iff, decide_eq_true_iff, hremaining e he, ← ne_eq, Option.isSome_iff_ne_none]
    rw [hkept]
    exact forall₂_filterMap fun e clause => column_of_sortClause? hp hids hroot hnamed

theorem resolveSort_articlesByAuthor : ∃ p,
    (build Model.sample .builtIn Model.Blog.article (articlesByAuthor "writer")).plan = .ok p ∧
      ("writer.name", .descending) ∉
        (p.resolveSort Model.sample [("writer.name", .descending), ("title", .ascending)]).remaining ∧
      List.Forall₂ (fun e clause => ∃ c, p.column e.1 = .ok c ∧ p.orderColumn clause = .ok (c, e.2))
        [("writer.name", .descending), ("title", .ascending)]
        (p.resolveSort Model.sample [("writer.name", .descending), ("title", .ascending)]).clauses := by
  have hbuild : ((build Model.sample .builtIn Model.Blog.article (articlesByAuthor "writer")).plan.toOption.map
      fun p => (p.resolveSort Model.sample [("writer.name", .descending), ("title", .ascending)]).remaining) =
      some [] := by decide +kernel
  obtain ⟨p, hp, hnone⟩ := Option.map_eq_some_iff.mp hbuild
  obtain ⟨-, hclauses⟩ := resolveSort_column (by decide +kernel) (by decide +kernel)
    (by decide +kernel) (by decide +kernel) (eq_ok_of_toOption hp)
    [("writer.name", .descending), ("title", .ascending)]
  refine ⟨p, eq_ok_of_toOption hp, by simp [hnone], ?_⟩
  simpa [hnone] using hclauses

/-- A filter reaches the title of articles under their alias, and a sort entry of that name is not
resolved. -/
theorem not_resolveSort_articleTitle : ∃ p c,
    (build Model.sample .builtIn Model.Blog.article {}).plan = .ok p ∧
      ({} : Descriptor).DistinctAliases Model.Blog.article ∧ p.rootAlias = "article" ∧
      p.column "article.title" = .ok c ∧ p.column "title" = .ok c ∧
      p.resolveSort Model.sample [("article.title", .ascending)] =
        ⟨[], [("article.title", .ascending)]⟩ := by
  have hbuild : ((build Model.sample .builtIn Model.Blog.article {}).plan.toOption.map fun p =>
      (p.rootAlias, (p.column "title").toOption.isSome,
        decide ((p.column "article.title").toOption = (p.column "title").toOption),
        p.resolveSort Model.sample [("article.title", .ascending)])) =
      some ("article", true, true, ⟨[], [("article.title", .ascending)]⟩) := by decide +kernel
  obtain ⟨p, hp, hfacts⟩ := Option.map_eq_some_iff.mp hbuild
  simp only [Prod.mk.injEq, decide_eq_true_iff] at hfacts
  obtain ⟨halias, hsome, hsame, hsort⟩ := hfacts
  obtain ⟨c, hc⟩ := exists_ok_of_toOption hsome
  rw [hc] at hsame
  exact ⟨p, c, eq_ok_of_toOption hp, by decide +kernel, halias, eq_ok_of_toOption hsame, hc, hsort⟩

end EntityQuery.Plan
