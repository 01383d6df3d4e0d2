import EntityQuery.Proofs.Count
import EntityQuery.Proofs.Items
import EntityQuery.Proofs.Names
import EntityQuery.Proofs.RowOrder
/-!
Outer joins never change which roots match. Where filters and sort entries name columns of the root only,
a query whose relations are all outer lists the roots that it lists without its relations, whatever the
conditions of its joins are, and counts as many; with the whole key in the sort the order is the same.
-/
namespace EntityQuery

/-- All relations of a query keep rows without a match. -/
def Descriptor.Outer (d : Descriptor) : Prop :=
  ∀ e ∈ d.relations.entries, e.2.joinType = .left

instance (d : Descriptor) : Decidable d.Outer :=
  inferInstanceAs (Decidable (∀ e ∈ d.relations.entries, _))

/-- No sort entry of a query names a join. -/
def Descriptor.SortsRoot (d : Descriptor) : Prop :=
  ∀ e ∈ d.sort.entries, ∀ q ∈ Text.splitFirstDot? e.1, q.1 ∉ d.joinAliases

/-- The sort of a query includes the whole key of the root, in bare fields: entries under the name of the
root are dropped. -/
def Descriptor.SortsKey (root : Entity) (d : Descriptor) : Prop :=
  ∀ c ∈ root.keyColumns, ∃ e ∈ d.sort.entries, e.1 = c.field ∧ Text.splitFirstDot? e.1 = none

instance (d : Descriptor) : Decidable d.SortsRoot :=
  inferInstanceAs (Decidable (∀ e ∈ d.sort.entries, ∀ q ∈ Text.splitFirstDot? e.1, _))

instance (root : Entity) (d : Descriptor) : Decidable (d.SortsKey root) :=
  inferInstanceAs (Decidable (∀ c ∈ root.keyColumns, ∃ e ∈ d.sort.entries, _ ∧ _))

/-- The query without its relations. -/
def Descriptor.bare (d : Descriptor) : Descriptor := { d with relations := .empty }

/-- The order clauses of a sort whose entries name no join: those of its bare fields of the root. -/
def Descriptor.rootClauses (root : Entity) (d : Descriptor) : List OrderClause :=
  d.sort.entries.filterMap fun e =>
    if (Text.splitFirstDot? e.1).isNone && root.hasField e.1 then
      some ⟨root.aliasName, e.1, e.2⟩
    else none

namespace Plan

variable {s : Schema} {db : Database} {p q : Plan} {js : List ResolvedJoin}
  {operators : OperatorTable Operator} {root : Entity} {d : Descriptor}

theorem outer_of_asked (houter : d.Outer) {clauses : List JoinClause}
    (hasked : List.Forall₂ (Asked root) d.relations.entries clauses)
    (hfollows : List.Forall₂ Follows clauses js) : ∀ j ∈ js, j.outer = true := by
  intro j hj
  obtain ⟨e, he, c, hc, -, -, -, hj, -⟩ := exists_asked hasked hfollows j hj
  rw [hj, hc.joinType, houter e he]
  rfl

theorem orderBy_build (h : (build s operators root d).plan = .ok p) :
    p.orderBy = d.sort.entries.filterMap fun e => p.sortClause? s e.1 e.2 := by
  obtain ⟨first, joined, filtered, hs, hr, hf, rfl⟩ := build_eq_ok h
  obtain ⟨predicates, -, rfl⟩ := addParameters_eq_ok hf
  change joined.orderBy ++ _ = _
  rw [(frame_joined hs hr).2.2]
  rfl

/-- Where no entry with a dot is resolved, the order consists of the clauses of bare fields. -/
theorem orderBy_of_bare (h : (build s operators root d).plan = .ok p)
    (hbare : ∀ e ∈ d.sort.entries, ∀ q, Text.splitFirstDot? e.1 = some q → p.sortClause? s e.1 e.2 = none) :
    p.orderBy = d.rootClauses root := by
  have hroot := (build_frame h).1
  rw [orderBy_build h]
  refine List.filterMap_congr fun e he => ?_
  cases hsplit : Text.splitFirstDot? e.1 with
  | none => simp [sortClause?, hsplit, hroot, rootAlias]
  | some q => simp [hbare e he q hsplit]

theorem orderBy_onRoot (hsort : d.SortsRoot) (h : (build s operators root d).plan = .ok p) :
    p.orderBy = d.rootClauses root := by
  refine orderBy_of_bare h fun e he q hsplit => ?_
  have hnone : p.findJoin q.1 = none := by
    rw [findJoin, List.find?_eq_none]
    intro j hj hname
    have halias : j.aliasName ∈ p.aliasNames.tail := List.mem_map.mpr ⟨j, hj, rfl⟩
    rw [aliasNames_build h, List.tail_cons, beq_iff_eq.mp hname] at halias
    exact hsort e he q hsplit halias
  simp [sortClause?, hsplit, hnone]

/-- The clauses of bare fields sort by columns of the root. -/
theorem orderColumn_rootClauses (hp : p.Layout s) (hroot : p.root = root) {clause : OrderClause}
    (hclause : clause ∈ d.rootClauses root) : p.orderColumn clause =
      (match (rootOccurrence root).column? clause.field with
       | some column => .ok (column, clause.direction)
       | none => .error (.noMember root.name clause.field)) := by
  obtain ⟨e, -, he⟩ := List.mem_filterMap.mp hclause
  split at he
  · cases he
    subst hroot
    have hname : p.names.find? p.root.aliasName = some (rootOccurrence p.root) := hp.root_name
    unfold orderColumn
    simp only [hname, Option.getD_some]
    rfl
  · cases he

theorem owner_rootClauses (hp : p.Layout s) (hroot : p.root = root)
    {order : List (ColumnRef × Direction)}
    (h : (d.rootClauses root).mapM p.orderColumn = .ok order) :
    ∀ c ∈ order, c.1.owner = .entity 0 := by
  intro c hc
  obtain ⟨clause, hclause, hcolumn⟩ := mem_of_mapM h hc
  rw [orderColumn_rootClauses hp hroot hclause] at hcolumn
  split at hcolumn
  · rename_i column hfield
    cases hcolumn
    exact owner_column? hfield
  · cases hcolumn

theorem sortsKey_of_rootClauses (hroot : p.root = root) (horder : p.orderBy = d.rootClauses root)
    (hs : s.WellFormed) (hmem : root ∈ s.entities) (hkey : d.SortsKey root) : p.SortsKey := by
  subst hroot
  intro c hc
  obtain ⟨e, he, hfield, hdot⟩ := hkey c hc
  refine ⟨⟨p.root.aliasName, e.1, e.2⟩, ?_, rfl, hfield⟩
  have hhas : p.root.hasField e.1 = true := by
    rw [Entity.hasField, hfield, column?_of_mem hs hmem (List.mem_filter.mp hc).1]
    rfl
  rw [horder]
  exact List.mem_filterMap.mpr ⟨e, he, by simp [hdot, hhas]⟩

/-- Filters on the root do not depend on the relations of a query. -/
theorem predicates_bare (hd : d.DistinctAliases root) (hfilters : d.FiltersRoot root)
    (hp : (build s operators root d).plan = .ok p)
    (hq : (build s operators root d.bare).plan = .ok q) : q.predicates = p.predicates := by
  have hproot := (build_frame hp).1
  have hqroot := (build_frame hq).1
  have hplay := layout_build hd hp
  have hqlay := layout_build (d := d.bare) (List.nodup_singleton _) hq
  obtain ⟨first, joined, filtered, hs, hr, hf, rfl⟩ := build_eq_ok hp
  obtain ⟨predicates, hpredicates, rfl⟩ := addParameters_eq_ok hf
  obtain ⟨first', joined', filtered', hs', hr', hf', rfl⟩ := build_eq_ok hq
  obtain ⟨predicates', hpredicates', rfl⟩ := addParameters_eq_ok hf'
  have hjoined : joined.Layout s :=
    ⟨hplay.distinct, hplay.root_name, hplay.join_name, hplay.source, hplay.named⟩
  have hjoined' : joined'.Layout s :=
    ⟨hqlay.distinct, hqlay.root_name, hqlay.join_name, hqlay.source, hqlay.named⟩
  have hroot : joined.root = root := hproot
  have hroot' : joined'.root = root := hqroot
  have hsame : predicates' = predicates := by
    have hcongr := mapM_congr (f := fun e => joined'.parameterPredicate operators e.1 e.2)
      (g := fun e => joined.parameterPredicate operators e.1 e.2)
      fun e he => parameterPredicate_congr hjoined hjoined' (hroot'.trans hroot.symm) operators e.2
        (hroot ▸ hfilters e he)
    exact Except.ok.inj (hpredicates'.symm.trans (hcongr.trans hpredicates))
  change joined'.predicates ++ predicates' = joined.predicates ++ predicates
  rw [hsame, (frame_joined hs hr).2.1, (frame_joined hs' hr').2.1]

theorem conditions_congr (hroot : q.root = p.root) (hpredicates : q.predicates = p.predicates) :
    q.conditions = p.conditions := by
  unfold conditions
  rw [hroot, hpredicates]

theorem rootMatches_congr (hroot : q.root = p.root) (hconditions : q.conditions = p.conditions) :
    q.rootMatches db = p.rootMatches db := by
  unfold rootMatches rootRows
  rw [hroot, hconditions]

/-- Rows are compared by their roots where all columns of the order are on the root. -/
theorem compareRows_onRoot {order : List (ColumnRef × Direction)}
    (h : ∀ c ∈ order, c.1.owner = .entity 0) {row other : JoinedRow} {a b : Row}
    (hrow : row.rowAt 0 = some a) (hother : other.rowAt 0 = some b) :
    compareRows order row other = compareRows order [(.entity 0, a)] [(.entity 0, b)] := by
  have hget : ∀ {row : JoinedRow} {r : Row}, row.rowAt 0 = some r → ∀ c ∈ order,
      row.get c.1 = JoinedRow.get [(.entity 0, r)] c.1 := fun {row r} hr c hc => by
    unfold JoinedRow.get
    rw [h c hc, show List.lookup (Owner.entity 0) row = some r from hr]
    rfl
  induction order with
  | nil => rfl
  | cons c rest ih =>
    rw [compareRows, compareRows, hget hrow c List.mem_cons_self, hget hother c List.mem_cons_self,
      ih (fun c' hc => h c' (List.mem_cons_of_mem c hc)) fun hr c' hc =>
        hget hr c' (List.mem_cons_of_mem c hc)]

theorem pairwise_rootsOf {order : List (ColumnRef × Direction)}
    (h : ∀ c ∈ order, c.1.owner = .entity 0) {rows : List JoinedRow}
    (hrows : rows.Pairwise fun a b => compareRows order a b ≠ .gt) :
    (rootsOf rows).Pairwise fun a b =>
      compareRows order [(.entity 0, a)] [(.entity 0, b)] ≠ .gt := by
  refine List.Pairwise.sublist (eraseDups_sublist _) (hrows.filterMap _ ?_)
  intro row other hle a ha b hb
  rwa [← compareRows_onRoot h ha hb]

theorem properIn_root (hs : s.WellFormed) (hdb : db.Sound s) (hroot : p.root ∈ s.entities)
    {order : List (ColumnRef × Direction)} (h : ∀ c ∈ order, c.1.owner = .entity 0) {a : Row}
    (ha : a ∈ p.rootRows db) : JoinedRow.ProperIn order [(.entity 0, a)] := by
  intro c hc
  unfold JoinedRow.get
  rw [h c hc]
  exact hdb.proper hs hroot ha _

/-- Roots in an order that includes their whole key can be listed in one way only. -/
theorem eq_of_pairwise_roots (hs : s.WellFormed) (hdb : db.Sound s) (hroot : p.root ∈ s.entities)
    {order : List (ColumnRef × Direction)} (h : ∀ c ∈ order, c.1.owner = .entity 0)
    (hkey : p.OrdersKey order) {rs ts : List Row} (hstored : ∀ r ∈ rs, r ∈ p.rootRows db)
    (hsame : ∀ r, r ∈ rs ↔ r ∈ ts) (hrs : rs.Nodup) (hts : ts.Nodup)
    (hrsorted : rs.Pairwise fun a b => compareRows order [(.entity 0, a)] [(.entity 0, b)] ≠ .gt)
    (htsorted : ts.Pairwise fun a b => compareRows order [(.entity 0, a)] [(.entity 0, b)] ≠ .gt) :
    rs = ts := by
  refine List.Perm.eq_of_pairwise (fun a b ha hb hab hba => ?_) hrsorted htsorted
    ((List.perm_ext_iff_of_nodup hrs hts).mpr hsame)
  have ha := hstored a ha
  have hb := hstored b ((hsame b).mpr hb)
  exact root_of_compareRows hs hdb hroot hkey ha hb (JoinedRow.rowAt_entity 0 a [])
    (JoinedRow.rowAt_entity 0 b []) (compareRows_antisymm (properIn_root hs hdb hroot h ha)
      (properIn_root hs hdb hroot h hb) hab hba)

/-- What a plan has whose filters and sort entries name the root, and whose joins keep it. -/
structure KeepsRoots (s : Schema) (d : Descriptor) (p : Plan) (js : List ResolvedJoin) : Prop where
  layout : p.Layout s
  staged : p.Staged s 0 js
  outer : ∀ j ∈ js, j.outer = true
  conditions : ∀ c ∈ p.conditions, OnRoot c
  order : p.orderBy = d.rootClauses p.root

theorem keepsRoots_build (hd : d.DistinctAliases root) (houter : d.Outer)
    (hfilters : d.FiltersRoot root) (hsort : d.SortsRoot)
    (hp : (build s operators root d).plan = .ok p) (hj : p.resolveJoins = .ok js) :
    KeepsRoots s d p js := by
  have hlay := layout_build hd hp
  obtain ⟨hst, hfollows⟩ := resolveJoins_eq_ok hlay hj
  refine ⟨hlay, hst, outer_of_asked houter (build_joins hp) hfollows,
    conditions_onRoot hd hfilters hp, ?_⟩
  rw [(build_frame hp).1]
  exact orderBy_onRoot hsort hp

theorem KeepsRoots.owner (hp : KeepsRoots s d p js) {order : List (ColumnRef × Direction)}
    (horder : p.orderColumns = .ok order) : ∀ c ∈ order, c.1.owner = .entity 0 := by
  unfold orderColumns at horder
  rw [hp.order] at horder
  exact owner_rootClauses hp.layout rfl horder

/-- The order of such a plan does not depend on its joins. -/
theorem KeepsRoots.orderColumns_congr {ks : List ResolvedJoin} (hp : KeepsRoots s d p js)
    (hq : KeepsRoots s d.bare q ks) (hroot : q.root = p.root) :
    q.orderColumns = p.orderColumns := by
  have hqorder : q.orderBy = d.rootClauses p.root := hroot ▸ hq.order
  unfold orderColumns
  rw [hp.order, hqorder]
  refine mapM_congr fun c hc => ?_
  rw [orderColumn_rootClauses hp.layout rfl hc, orderColumn_rootClauses hq.layout hroot hc]

theorem KeepsRoots.mem_rootsOf (hp : KeepsRoots s d p js) (order : List (ColumnRef × Direction))
    (r : Row) : r ∈ rootsOf (p.sorted db js order) ↔ r ∈ p.rootMatches db := by
  rw [mem_rootsOf_sorted, mem_rootMatches hp.conditions hp.outer]

theorem KeepsRoots.pairwise_rootsOf (hs : s.WellFormed) (hdb : db.Sound s)
    (hroot : p.root ∈ s.entities) (hp : KeepsRoots s d p js)
    {order : List (ColumnRef × Direction)} (horder : p.orderColumns = .ok order) :
    (rootsOf (p.sorted db js order)).Pairwise fun a b =>
      compareRows order [(.entity 0, a)] [(.entity 0, b)] ≠ .gt :=
  Plan.pairwise_rootsOf (hp.owner horder) (pairwise_sorted fun _ hrow =>
    properIn_matched hs hdb hp.layout hroot hp.staged horder hrow)

theorem KeepsRoots.length_rootMatches (hs : s.WellFormed) (hdb : db.Sound s)
    (hroot : p.root ∈ s.entities) (hp : KeepsRoots s d p js) :
    ((p.matched db js).map p.rootKey).eraseDups.length = (p.rootMatches db).length := by
  have hnodup : (p.rootMatches db).Nodup := (hdb.nodup_rows hs hroot).filter _
  have hmem : ∀ r, r ∈ rootsOf (p.matched db js) ↔ r ∈ p.rootMatches db := fun r => by
    rw [Plan.mem_rootsOf, mem_rootMatches hp.conditions hp.outer]
  rw [rootKeys_matched hs hdb hroot fun _ h => h, List.length_map]
  exact ((List.perm_ext_iff_of_nodup (nodup_eraseDups _) hnodup).mpr hmem).length_eq

end Plan

namespace Repository

open Plan

variable {s : Schema} {db : Database} {r : Repository} {d : Descriptor}

/-- Two answers list the same roots; in the same order, if this is asked for. -/
def SameRoots (db : Database) (root : Entity) (inOrder : Prop) (a b : Answer) : Prop :=
  ∃ items others rs ts, a.fetched = .list items ∧ b.fetched = .list others ∧
    List.Forall₂ (fun r item => Item.StandsFor root r item) rs items ∧
    List.Forall₂ (fun r item => Item.StandsFor root r item) ts others ∧
    rs.Nodup ∧ ts.Nodup ∧ (∀ r ∈ rs, r ∈ db.rows root.table) ∧ (∀ r, r ∈ rs ↔ r ∈ ts) ∧
    (inOrder → rs = ts)

theorem rootMatches_bare (hd : d.DistinctAliases r.builder.root)
    (hfilters : d.FiltersRoot r.builder.root) {p q : Plan} (hp : planOf s r d = .ok p)
    (hq : planOf s r d.bare = .ok q) : q.rootMatches db = p.rootMatches db := by
  have hsame : q.root = p.root := (build_frame hq).1.trans (build_frame hp).1.symm
  exact rootMatches_congr hsame (conditions_congr hsame (predicates_bare hd hfilters hp hq))

theorem bare_distinct (root : Entity) : d.bare.DistinctAliases root := List.nodup_singleton _

theorem bare_outer : d.bare.Outer := fun _ h => absurd h List.not_mem_nil

theorem bare_sortsRoot : d.bare.SortsRoot := fun _ _ _ _ h => absurd h List.not_mem_nil

theorem sameRoots_bare (hs : s.WellFormed) (hdb : db.Sound s)
    (hroot : r.builder.root ∈ s.entities) (hd : d.DistinctAliases r.builder.root)
    (houter : d.Outer) (hfilters : d.FiltersRoot r.builder.root) (hsort : d.SortsRoot)
    (hlimit : d.limit = none) (hoffset : d.offset = none) (hindex : d.indexBy = none)
    (hf : r.ReadsAfresh d) (hfbare : r.ReadsAfresh d.bare) {a b : Answer}
    (ha : (run r (fetchAll s db (.descriptor d))).1 = .ok a)
    (hb : (run r (fetchAll s db (.descriptor d.bare))).1 = .ok b) :
    SameRoots db r.builder.root (d.SortsKey r.builder.root) a b := by
  obtain ⟨p, o, items, hp, ho, hitems, hstands⟩ :=
    fetchAll_standsFor hs hdb hroot hd hf hindex ha
  obtain ⟨q, i, others, hq, hi, hothers, hstands'⟩ :=
    fetchAll_standsFor hs hdb hroot (bare_distinct _) hfbare hindex hb
  obtain ⟨hj, horder⟩ := outline_eq_ok ho
  obtain ⟨hk, horder'⟩ := outline_eq_ok hi
  have hkeeps := keepsRoots_build hd houter hfilters hsort hp hj
  have hkeeps' := keepsRoots_build (bare_distinct _) bare_outer hfilters bare_sortsRoot hq hk
  have hproot : p.root = r.builder.root := (build_frame hp).1
  have hsame : q.root = p.root := (build_frame hq).1.trans hproot.symm
  have hmem : p.root ∈ s.entities := hproot ▸ hroot
  -- both queries are sorted by the same columns, all of the root
  have heq : i.2 = o.2 := by
    rw [hkeeps.orderColumns_congr hkeeps' hsame, horder] at horder'
    exact (Except.ok.inj horder').symm
  rw [hlimit, hoffset, hproot] at hstands
  rw [show d.bare.limit = none from hlimit, show d.bare.offset = none from hoffset, hsame,
    hproot] at hstands'
  have hroots : ∀ x, x ∈ rootsOf (p.sorted db o.1 o.2) ↔ x ∈ rootsOf (q.sorted db i.1 i.2) :=
    fun x => by
      rw [hkeeps.mem_rootsOf, hkeeps'.mem_rootsOf, rootMatches_bare hd hfilters hp hq]
  have hstored : ∀ x ∈ rootsOf (p.sorted db o.1 o.2), x ∈ p.rootRows db := fun x hx =>
    (List.mem_filter.mp ((hkeeps.mem_rootsOf _ x).mp hx)).1
  refine ⟨items, others, _, _, hitems, hothers, hstands, hstands', nodup_eraseDups _,
    nodup_eraseDups _, hproot ▸ hstored, hroots, fun hkey => ?_⟩
  have hsortsKey := sortsKey_of_rootClauses hproot (hproot ▸ hkeeps.order) hs hroot hkey
  have hsorted' := hkeeps'.pairwise_rootsOf hs hdb (hsame ▸ hmem) horder'
  rw [heq] at hsorted'
  exact eq_of_pairwise_roots hs hdb hmem (hkeeps.owner horder)
    (ordersKey_of_sortsKey hs hkeeps.layout hmem hsortsKey horder) hstored hroots
    (nodup_eraseDups _) (nodup_eraseDups _) (hkeeps.pairwise_rootsOf hs hdb hmem horder)
    (heq ▸ hsorted')

theorem count_bare (hs : s.WellFormed) (hdb : db.Sound s) (hroot : r.builder.root ∈ s.entities)
    (hd : d.DistinctAliases r.builder.root) (houter : d.Outer)
    (hfilters : d.FiltersRoot r.builder.root) (hsort : d.SortsRoot) {n m : Nat}
    (hn : (run r (count s db (.descriptor d))).1 = .ok n)
    (hm : (run r (count s db (.descriptor d.bare))).1 = .ok m) : n = m := by
  obtain ⟨p, js, hp, hj, -, rfl⟩ := count_matched hd hn
  obtain ⟨q, ks, hq, hk, -, rfl⟩ := count_matched (bare_distinct _) hm
  have hkeeps := keepsRoots_build hd houter hfilters hsort hp hj
  have hkeeps' := keepsRoots_build (bare_distinct _) bare_outer hfilters bare_sortsRoot hq hk
  rw [hkeeps.length_rootMatches hs hdb ((build_frame hp).1 ▸ hroot),
    hkeeps'.length_rootMatches hs hdb ((build_frame hq).1 ▸ hroot),
    rootMatches_bare hd hfilters hp hq]

/-- A query whose filters and sort entries name the root and whose relations are all outer lists the
roots that it lists without its relations, in the same order if its sort includes their whole key, and
counts as many. -/
theorem fetchAll_outer (hs : s.WellFormed) (hdb : db.Sound s)
    (hroot : r.builder.root ∈ s.entities) (hd : d.DistinctAliases r.builder.root)
    (houter : d.Outer) (hfilters : d.FiltersRoot r.builder.root) (hsort : d.SortsRoot)
    (hlimit : d.limit = none) (hoffset : d.offset = none) (hindex : d.indexBy = none)
    (hf : r.ReadsAfresh d) (hfbare : r.ReadsAfresh d.bare) :
    (∀ a b, (run r (fetchAll s db (.descriptor d))).1 = .ok a →
      (run r (fetchAll s db (.descriptor d.bare))).1 = .ok b →
        SameRoots db r.builder.root (d.SortsKey r.builder.root) a b) ∧
    ∀ n m, (run r (count s db (.descriptor d))).1 = .ok n →
      (run r (count s db (.descriptor d.bare))).1 = .ok m → n = m :=
  ⟨fun _ _ ha hb =>
      sameRoots_bare hs hdb hroot hd houter hfilters hsort hlimit hoffset hindex hf hfbare ha hb,
    fun _ _ hn hm => count_bare hs hdb hroot hd houter hfilters hsort hn hm⟩

/-- The first categories, each with those before it, with those products of these that come after it,
and with the names of its own products. -/
def firstCategories : Descriptor where
  parameters := .ofList [("category.id:lt", .integer 4)]
  relations := .ofList
    [("children",
      { joinAlias := some "before", conditionType := some .replaces,
        condition := .condition (.compareField .less "before.id" "category.id") }),
     ("before.products",
      { joinAlias := some "late", conditionType := some .narrows,
        condition := .condition (.compareField .greater "late.id" "category.id") }),
     ("products", { fields := some ["name"] })]
  sort := .ofList [("name", .ascending), ("id", .ascending)]
  hydration := .records

/-- What a fetch and a count answer, computed without sorting. -/
theorem runs_inOrder (s : Schema) (db : Database) (root : Entity) {d : Descriptor}
    (hcache : d.cache = none) (hpage : d.countAvailableRows = false) {n : Nat}
    (h : (readInOrder? s db (ofRoot root) d).isSome = true ∧
      (planOf s (ofRoot root) d >>= countUnsorted s db).toOption = some n) :
    ∃ a, (run (ofRoot root) (fetchAll s db (.descriptor d))).1 = .ok a ∧
      (run (ofRoot root) (count s db (.descriptor d))).1 = .ok n := by
  obtain ⟨fetched, hfetched⟩ := Option.isSome_iff_exists.mp h.1
  exact ⟨_, fetchAll_inOrder hcache hpage hfetched,
    (count_unsorted ..).trans (eq_ok_of_toOption h.2)⟩

theorem sameRoots_firstCategories :
    ∃ a b, (run (ofRoot Model.Shop.category)
        (fetchAll Model.sample Model.sampleRows (.descriptor firstCategories))).1 = .ok a ∧
      (run (ofRoot Model.Shop.category)
        (fetchAll Model.sample Model.sampleRows (.descriptor firstCategories.bare))).1 = .ok b ∧
      (run (ofRoot Model.Shop.category)
        (count Model.sample Model.sampleRows (.descriptor firstCategories))).1 = .ok 3 ∧
      SameRoots Model.sampleRows Model.Shop.category
        (firstCategories.SortsKey Model.Shop.category) a b ∧
      firstCategories.SortsKey Model.Shop.category := by
  obtain ⟨a, ha, hn⟩ := runs_inOrder Model.sample Model.sampleRows Model.Shop.category
    (d := firstCategories) rfl rfl (n := 3) (by decide +kernel)
  obtain ⟨b, hb, -⟩ := runs_inOrder Model.sample Model.sampleRows Model.Shop.category
    (d := firstCategories.bare) rfl rfl (n := 3) (by decide +kernel)
  have houter := fetchAll_outer sample_wellFormed sampleRows_sound
    (r := ofRoot Model.Shop.category) (d := firstCategories) (by decide) (by decide +kernel)
    (by decide +kernel) (by decide +kernel) (by decide +kernel) rfl rfl rfl
    (readsAfresh_of_uncached rfl) (readsAfresh_of_uncached rfl)
  exact ⟨a, b, ha, hb, hn, houter.1 a b ha hb, by decide +kernel⟩

end Repository
end EntityQuery
