import EntityQuery.Proofs.Paging
import EntityQuery.Proofs.SortPartition
/-!
Lists come out sorted. Where all entries of a sort that are resolved name columns of the root, the roots of
a list are in the order of these columns, each in its direction, whatever is joined; the other entries have
no effect at all.
-/
namespace EntityQuery

/-- The columns of the root that the bare entries of a sort name, with their directions. -/
def Descriptor.rootColumns (root : Entity) (d : Descriptor) : List (Column × Direction) :=
  d.sort.entries.filterMap fun e =>
    if '.' ∈ e.1.toList then none else (root.column? e.1).map fun c => (c, e.2)

/-- One row stands before another one by columns, or at the same place: the first column in which they
differ decides, in its direction. -/
inductive InOrder : List (Column × Direction) → Row → Row → Prop
  | nil {a b : Row} : InOrder [] a b
  | before {c : Column} {dir : Direction} {rest : List (Column × Direction)} {a b : Row} :
      dir.apply ((a.get c.name).order (b.get c.name)) = .lt → InOrder ((c, dir) :: rest) a b
  | tied {c : Column} {dir : Direction} {rest : List (Column × Direction)} {a b : Row} :
      (a.get c.name).order (b.get c.name) = .eq → InOrder rest a b → InOrder ((c, dir) :: rest) a b

/-- Columns of the root as the order of a statement. -/
def rootOrder (root : Entity) (columns : List (Column × Direction)) : List (ColumnRef × Direction) :=
  columns.map fun c => (⟨.entity 0, root.aliasName, c.1⟩, c.2)

theorem Direction.apply_eq_eq {dir : Direction} {o : Ordering} : dir.apply o = .eq ↔ o = .eq := by
  cases dir <;> cases o <;> decide

theorem inOrder_iff {root : Entity} {columns : List (Column × Direction)} {a b : Row} :
    InOrder columns a b ↔
      compareRows (rootOrder root columns) [(.entity 0, a)] [(.entity 0, b)] ≠ .gt := by
  induction columns with
  | nil => exact iff_of_true .nil (by simp [rootOrder, compareRows])
  | cons c rest ih =>
    obtain ⟨c, dir⟩ := c
    have hcompare : compareRows (rootOrder root ((c, dir) :: rest)) [(.entity 0, a)] [(.entity 0, b)] =
        (dir.apply ((a.get c.name).order (b.get c.name))).then
          (compareRows (rootOrder root rest) [(.entity 0, a)] [(.entity 0, b)]) := rfl
    rw [hcompare]
    constructor
    · intro h
      cases h with
      | before hlt => simp [hlt]
      | tied heq hrest => simpa [Direction.apply_eq_eq.mpr heq] using ih.mp hrest
    · intro h
      cases happly : dir.apply ((a.get c.name).order (b.get c.name)) with
      | lt => exact .before happly
      | eq =>
        rw [happly] at h
        exact .tied (Direction.apply_eq_eq.mp happly) (ih.mpr h)
      | gt =>
        rw [happly] at h
        exact absurd rfl h

namespace Plan

variable {s : Schema} {p q : Plan} {operators : OperatorTable Operator} {root : Entity} {d : Descriptor}

theorem rootClauses_eq (root : Entity) (d : Descriptor) :
    d.rootClauses root = (d.rootColumns root).map fun c => ⟨root.aliasName, c.1.field, c.2⟩ := by
  unfold Descriptor.rootClauses Descriptor.rootColumns
  rw [List.map_filterMap]
  refine List.filterMap_congr fun e _ => ?_
  by_cases hdot : '.' ∈ e.1.toList
  · have hsplit : Text.splitFirstDot? e.1 ≠ none := fun h => Text.splitFirstDot?_eq_none h hdot
    simp [hdot, hsplit]
  · have hsplit := Text.splitFirstDot?_dotless hdot
    cases hc : root.column? e.1 with
    | none => simp [hdot, hsplit, hc, Entity.hasField]
    | some c =>
      have hfield : c.field = e.1 := by simpa using List.find?_some hc
      simp [hdot, hsplit, hc, Entity.hasField, hfield]

theorem column?_of_rootColumns {c : Column × Direction} (hc : c ∈ d.rootColumns root) :
    root.column? c.1.field = some c.1 := by
  obtain ⟨e, -, he⟩ := List.mem_filterMap.mp hc
  split at he
  · cases he
  · obtain ⟨column, hcolumn, rfl⟩ := Option.map_eq_some_iff.mp he
    have hfield : column.field = e.1 := by simpa using List.find?_some hcolumn
    exact hfield ▸ hcolumn

/-- Sorting by columns of the root alone is sorting by these columns. -/
theorem orderColumns_of_bare (hp : p.Layout s) (hroot : p.root = root)
    (horder : p.orderBy = d.rootClauses root) :
    p.orderColumns = .ok (rootOrder root (d.rootColumns root)) := by
  unfold orderColumns rootOrder
  rw [horder, rootClauses_eq, mapM_eq_ok_iff, List.forall₂_map_left_iff, List.forall₂_map_right_iff,
    List.forall₂_same]
  intro c hc
  have hclause : (⟨root.aliasName, c.1.field, c.2⟩ : OrderClause) ∈ d.rootClauses root := by
    rw [rootClauses_eq]
    exact List.mem_map_of_mem hc
  have hcolumn : (rootOccurrence root).column? c.1.field = some ⟨.entity 0, root.aliasName, c.1⟩ := by
    rw [column?_rootOccurrence, column?_of_rootColumns hc]
    rfl
  rw [orderColumn_rootClauses hp hroot hclause]
  simp only [hcolumn]

/-- The entries of a sort that are resolved name columns of the root. -/
theorem orderBy_of_sortsBy (hd : d.DistinctAliases root) (h : (build s operators root d).plan = .ok p)
    (hsort : ∀ e ∈ d.sort.entries, ∀ c, SortsBy s p e c → c.aliasName = root.aliasName) :
    p.orderBy = d.rootClauses root := by
  have hp := layout_build hd h
  have hroot : p.root = root := (build_frame h).1
  refine orderBy_of_bare h fun e he q hsplit => Option.eq_none_iff_forall_ne_some.mpr fun c hc => ?_
  have halias := hsort e he c ((sortsBy_iff (namesLast_build h) e c).mpr hc)
  rcases sortClause?_eq_some hp hc with ⟨hbare, -, -⟩ | ⟨i, j, field, hj, -, -, rfl⟩
  · rw [Text.splitFirstDot?_dotless hbare] at hsplit
    cases hsplit
  · refine (List.nodup_cons.mp hp.distinct).1 (List.mem_map.mpr ⟨j, List.mem_of_getElem? hj, ?_⟩)
    rw [rootAlias, hroot]
    exact halias

/-- The roots of the matches between bounds are in the order of the columns of the root. -/
theorem pairwise_inOrder {db : Database} (hs : s.WellFormed) (hdb : db.Sound s)
    (hroot : root ∈ s.entities) (hd : d.DistinctAliases root)
    (h : (build s operators root d).plan = .ok p) {o : Repository.Outline} (ho : p.outline = .ok o)
    (hsort : ∀ e ∈ d.sort.entries, ∀ c, SortsBy s p e c → c.aliasName = root.aliasName) :
    (rootsOf (within d.limit d.offset (p.sorted db o.1 o.2))).Pairwise (InOrder (d.rootColumns root)) := by
  have hp := layout_build hd h
  have hproot : p.root = root := (build_frame h).1
  obtain ⟨hj, horder⟩ := Repository.outline_eq_ok ho
  have hst := (resolveJoins_eq_ok hp hj).1
  have hcolumns : o.2 = rootOrder root (d.rootColumns root) :=
    Except.ok.inj (horder.symm.trans (orderColumns_of_bare hp hproot (orderBy_of_sortsBy hd h hsort)))
  have hrows : (within d.limit d.offset (p.sorted db o.1 o.2)).Pairwise fun a b =>
      compareRows o.2 a b ≠ .gt :=
    (pairwise_sorted fun row hrow =>
      properIn_matched hs hdb hp (hproot ▸ hroot) hst horder hrow).sublist (within_sublist _ _ _)
  have howner : ∀ c ∈ o.2, c.1.owner = .entity 0 := fun c hc => by
    rw [hcolumns] at hc
    obtain ⟨c', -, rfl⟩ := List.mem_map.mp hc
    rfl
  refine (pairwise_rootsOf howner hrows).imp fun {a b} hab => ?_
  rw [hcolumns] at hab
  exact inOrder_iff.mpr hab

/-! ### Entries that are not resolved -/

variable {sort : OrderedMap Direction} {keep : String × Direction → Bool}

/-- A plan with other entries that it could not be ordered by. -/
def withUnresolved (entries : List (String × Direction)) (p : Plan) : Plan :=
  { p with unresolvedSort := entries }

/-- Without entries that are not resolved the plan is the same, but for the record of these entries. -/
theorem build_filteredSort (hsort : sort.entries = d.sort.entries.filter keep)
    (hunresolved : ∀ p, (build s operators root d).plan = .ok p → ∀ e ∈ d.sort.entries, keep e = false →
      p.sortClause? s e.1 e.2 = none) :
    (build s operators root { d with sort := sort }).plan = (build s operators root d).plan.map fun p =>
      p.withUnresolved (p.resolveSort s sort.entries).remaining := by
  have hsame : beforeSort s operators root { d with sort := sort } = beforeSort s operators root d := rfl
  rw [plan_build] at hunresolved
  rw [plan_build, plan_build, hsame]
  cases hfiltered : beforeSort s operators root d with
  | error e => rfl
  | ok filtered =>
    rw [hfiltered] at hunresolved
    have hclauses : sort.entries.filterMap (fun e => filtered.sortClause? s e.1 e.2) =
        d.sort.entries.filterMap fun e => filtered.sortClause? s e.1 e.2 := by
      rw [hsort, List.filterMap_filter]
      refine List.filterMap_congr fun e he => ?_
      split
      · rfl
      · rename_i hkeep
        exact (hunresolved _ rfl e he (by simpa using hkeep)).symm
    exact congrArg Except.ok (congrArg (fun clauses => { filtered with
      orderBy := filtered.orderBy ++ clauses
      unresolvedSort := (filtered.resolveSort s sort.entries).remaining }) hclauses)

theorem joinsAs_withUnresolved (entries : List (String × Direction)) (p : Plan) :
    (p.withUnresolved entries).JoinsAs p := ⟨rfl, rfl, rfl, rfl⟩

theorem assemble_withUnresolved (entries : List (String × Direction)) (p : Plan)
    (js : List ResolvedJoin) (order : List (ColumnRef × Direction)) :
    (p.withUnresolved entries).assemble js order = p.assemble js order := by
  unfold assemble
  rw [(joinsAs_withUnresolved entries p).hasReplacedRoot]
  rfl

end Plan

namespace Repository

open Plan

variable {s : Schema} {db : Database} {r : Repository} {d : Descriptor} {sort : OrderedMap Direction}

theorem resultKey_withUnresolved (space : String) (c : CacheOptions) (p : Plan) (o : Outline)
    (kind : String) (entries : List (String × Direction)) :
    resultKey space { d with sort := sort } c (p.withUnresolved entries) o kind =
      resultKey space d c p o kind := by
  unfold resultKey
  rw [assemble_withUnresolved]
  rfl

theorem readThrough_withUnresolved (store : Option (ResultStore Fetched)) (p : Plan) (o : Outline)
    (kind : String) (entries : List (String × Direction)) (read : Except QueryError Fetched) :
    readThrough store { d with sort := sort } (p.withUnresolved entries) o kind read =
      readThrough store d p o kind read := by
  unfold readThrough
  simp only [resultKey_withUnresolved]

theorem readAll_withUnresolved (p : Plan) (h : Hydration) (o : Outline)
    (entries : List (String × Direction)) :
    readAll s db (p.withUnresolved entries) h o = readAll s db p h o := by
  unfold readAll load
  rw [assemble_withUnresolved]
  rfl

/-- Entries that are not resolved have no effect on what a fetch answers. -/
theorem fetchAll_filteredSort {keep : String × Direction → Bool}
    (hsort : sort.entries = d.sort.entries.filter keep)
    (hunresolved : ∀ p, planOf s r d = .ok p → ∀ e ∈ d.sort.entries, keep e = false →
      p.sortClause? s e.1 e.2 = none) :
    (run r (fetchAll s db (.descriptor { d with sort := sort }))).1 =
      (run r (fetchAll s db (.descriptor d))).1 := by
  have hplan : planOf s r { d with sort := sort } = (planOf s r d).map fun p =>
      p.withUnresolved (p.resolveSort s sort.entries).remaining := build_filteredSort hsort hunresolved
  rw [run_fetchAll, run_fetchAll]
  unfold answerAll
  rw [hplan]
  cases planOf s r d with
  | error e => rfl
  | ok p =>
    dsimp only [Except.map]
    generalize (p.resolveSort s sort.entries).remaining = entries
    have hjoins := joinsAs_withUnresolved entries p
    have houtline : (p.withUnresolved entries).outline = p.outline := hjoins.outline rfl
    have hcount : countRows s db (p.withUnresolved entries) = countRows s db p :=
      countRows_congr hjoins rfl
    simp only [houtline, hcount, readThrough_withUnresolved, readAll_withUnresolved]

/-- A fetch whose resolved sort entries name columns of the root lists its roots in the order of these
columns, once joins have repeated them and bounds have cut the matches; without some of the entries that
are not resolved it answers the same. -/
theorem fetchAll_sorted (hs : s.WellFormed) (hdb : db.Sound s) (hroot : r.builder.root ∈ s.entities)
    (hd : d.DistinctAliases r.builder.root) (hindex : d.indexBy = none) (hf : r.ReadsAfresh d) :
    (∀ a, (∀ p, planOf s r d = .ok p → ∀ e ∈ d.sort.entries, ∀ c, SortsBy s p e c →
        c.aliasName = r.builder.root.aliasName) →
      (run r (fetchAll s db (.descriptor d))).1 = .ok a →
        ∃ rs, ListsRoots db r.builder.root a rs ∧ rs.Pairwise (InOrder (d.rootColumns r.builder.root))) ∧
    ∀ (sort : OrderedMap Direction) (keep : String × Direction → Bool),
      sort.entries = d.sort.entries.filter keep →
      (∀ p, planOf s r d = .ok p → ∀ e ∈ d.sort.entries, keep e = false → ∀ c, ¬ SortsBy s p e c) →
        (run r (fetchAll s db (.descriptor { d with sort := sort }))).1 =
          (run r (fetchAll s db (.descriptor d))).1 := by
  refine ⟨fun a hsort ha => ?_, fun sort keep hfilter hunresolved => ?_⟩
  · obtain ⟨p, o, hp, ho, hlists⟩ := fetchAll_listsRoots hs hdb hroot hd hf hindex ha
    exact ⟨_, hlists, pairwise_inOrder hs hdb hroot hd hp ho (hsort p hp)⟩
  · refine fetchAll_filteredSort hfilter fun p hp e he hkeep => ?_
    exact Option.eq_none_iff_forall_ne_some.mpr fun c hc =>
      hunresolved p hp e he hkeep c ((sortsBy_iff (namesLast_build hp) e c).mpr hc)

/-- Articles that are not deleted before the others, the most viewed first; comments have no views. -/
def viewedArticles : Descriptor where
  relations := .ofList [("comments", {})]
  sort := .ofList [("deleted_at", .ascending), ("comments.views", .ascending), ("views", .descending)]
  limit := some 3
  offset := some 1
  hydration := .records

theorem sorted_viewedArticles : ∃ a rs,
    (run (ofRoot Model.Blog.article)
      (fetchAll Model.sample Model.sampleRows (.descriptor viewedArticles))).1 = .ok a ∧
    ListsRoots Model.sampleRows Model.Blog.article a rs ∧
    rs.Pairwise (InOrder (viewedArticles.rootColumns Model.Blog.article)) ∧
    (run (ofRoot Model.Blog.article) (fetchAll Model.sample Model.sampleRows (.descriptor
      { viewedArticles with
        sort := .ofList [("deleted_at", .ascending), ("views", .descending)] }))).1 = .ok a := by
  have hread : (readInOrder? Model.sample Model.sampleRows (ofRoot Model.Blog.article)
      viewedArticles).isSome = true := by decide +kernel
  obtain ⟨fetched, hfetched⟩ := Option.isSome_iff_exists.mp hread
  have hrun := fetchAll_inOrder (d := viewedArticles) rfl rfl hfetched
  have hclauses : ∀ p ∈ (planOf Model.sample (ofRoot Model.Blog.article) viewedArticles).toOption,
      ∀ e ∈ viewedArticles.sort.entries, ∀ c ∈ p.sortClause? Model.sample e.1 e.2,
        c.aliasName = "article" ∧ e.1 ≠ "comments.views" := by decide +kernel
  have hresolved : ∀ p, planOf Model.sample (ofRoot Model.Blog.article) viewedArticles = .ok p →
      ∀ e ∈ viewedArticles.sort.entries, ∀ c, SortsBy Model.sample p e c →
        c.aliasName = "article" ∧ e.1 ≠ "comments.views" := fun p hp e he c hc =>
    hclauses p (by rw [hp]; rfl) e he c ((sortsBy_iff (namesLast_build hp) e c).mp hc)
  obtain ⟨hsorted, hfiltered⟩ := fetchAll_sorted sample_wellFormed sampleRows_sound
    (r := ofRoot Model.Blog.article) (d := viewedArticles) (by decide) (by decide +kernel) rfl
    (readsAfresh_of_uncached rfl)
  obtain ⟨rs, hlists, hpairwise⟩ := hsorted _ (fun p hp e he c hc => (hresolved p hp e he c hc).1) hrun
  refine ⟨_, rs, hrun, hlists, hpairwise, ?_⟩
  rw [hfiltered _ (fun e => e.1 != "comments.views") (by decide +kernel) fun p hp e he hkeep c hc =>
    (hresolved p hp e he c hc).2 (by simpa using hkeep)]
  exact hrun

end Repository
end EntityQuery
