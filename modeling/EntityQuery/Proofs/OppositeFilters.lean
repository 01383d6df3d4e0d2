import EntityQuery.Proofs.FilterSets
import EntityQuery.Proofs.Opposites
import EntityQuery.Proofs.Paging
import EntityQuery.Proofs.Runnable
import EntityQuery.Proofs.SortNames
/-!
Opposite filters split the rows. A query that is filtered by one column of the root lists the rows of the
root on which the predicate of this filter is true; so two filters with opposite predicates list no root
twice, and together all roots whose column is not null.
-/
namespace EntityQuery

/-- A query with a single filter in place of its own. -/
def Descriptor.filteredBy (key : String) (v : Value) (d : Descriptor) : Descriptor :=
  { d with parameters := .ofList [(key, v)] }

namespace Plan

variable {s : Schema} {db : Database} {p : Plan} {operators : OperatorTable Operator} {root : Entity}
  {d : Descriptor} {f op : String} {c : Column} {v : Value}

theorem colonless_of_field (hids : s.Identifiers) (hroot : root ∈ s.entities)
    (hc : root.column? f = some c) : ':' ∉ f.toList :=
  Text.colonless_of_isIdentifier (hids.field hroot hc)

/-- A bare field of the root is its column. -/
theorem column_of_field (hids : s.Identifiers) (hp : p.Layout s) (hroot : p.root ∈ s.entities)
    (hc : p.root.column? f = some c) : p.column f = .ok ⟨.entity 0, p.rootAlias, c⟩ := by
  have hdot : '.' ∉ f.toList := dotless_of_hasField hids hroot (by rw [Entity.hasField, hc]; rfl)
  have hcolumn : (rootOccurrence p.root).column? f = some ⟨.entity 0, p.rootAlias, c⟩ := by
    rw [column?_rootOccurrence, hc]
    rfl
  exact ((reachesNamed_of_layout hp).filter_bare f hdot).trans (fieldColumn_eq_ok.mpr hcolumn)

/-- The one predicate of a query that is filtered by a column of the root. -/
theorem predicates_filteredBy (hids : s.Identifiers) (hroot : root ∈ s.entities)
    (hd : d.DistinctAliases root) (hc : root.column? f = some c) (hop : ':' ∉ op.toList)
    (h : (build s operators root (d.filteredBy (f ++ ":" ++ op) v)).plan = .ok p) :
    ∃ o q, operators.resolve op = .ok o ∧ o.apply ⟨.entity 0, root.aliasName, c⟩ v = .ok q ∧
      p.predicates = [q] := by
  have hp := layout_build (d := d.filteredBy (f ++ ":" ++ op) v) hd h
  obtain rfl : p.root = root := (build_frame h).1
  have hentries : (d.filteredBy (f ++ ":" ++ op) v).parameters.entries = [(f ++ ":" ++ op, v)] := rfl
  have hpredicates := mapM_eq_ok_iff.mp (predicates_build h)
  rw [hentries] at hpredicates
  obtain ⟨q, rest, hq, hrest, hlist⟩ := List.forall₂_cons_left_iff.mp hpredicates
  rw [List.forall₂_nil_left_iff.mp hrest] at hlist
  rw [parameterPredicate_append hids hroot (colonless_of_field hids hroot hc) hop] at hq
  obtain ⟨o, ho, hq⟩ := ok_of_bind hq
  obtain ⟨column, hcolumn, hq⟩ := ok_of_bind hq
  cases (column_of_field hids hp hroot hc).symm.trans hcolumn
  exact ⟨o, q, ho, hq, hlist⟩

/-- The cell of a column of the root in the row that is the root alone. -/
theorem get_root (x : Row) (name : String) (c : Column) :
    JoinedRow.get [(.entity 0, x)] ⟨.entity 0, name, c⟩ = x.get c.name := rfl

theorem holds_nullTest_iff {isNull : Bool} {row : JoinedRow} {column : ColumnRef} :
    (Predicate.nullTest isNull column).holds row = true ↔ (row.get column = .null ↔ isNull = true) := by
  unfold Predicate.holds Predicate.eval Cell.isNull
  cases isNull <;> simp

/-- A query that is filtered by a column of the root, whose joins keep the root, has the rows of the root
on which its one predicate is true. -/
theorem mem_rootsOf_filteredBy (hs : s.WellFormed) (hdb : db.Sound s) (hroot : p.root ∈ s.entities)
    {js : List ResolvedJoin} (houter : ∀ j ∈ js, j.outer = true)
    {q : Predicate} (hq : OnRoot q) (hpredicates : p.predicates = [q])
    {order : List (ColumnRef × Direction)} {r : Row} :
    r ∈ rootsOf (p.sorted db js order) ↔
      (r ∈ db.rows p.root.table ∧ p.root.Owns r) ∧ q.holds [(.entity 0, r)] = true := by
  have hconditions : p.conditions = q :: kindConditions p.root := by
    rw [conditions_eq_append, hpredicates]
    rfl
  have honRoot : ∀ k ∈ p.conditions, OnRoot k :=
    hconditions ▸ List.forall_mem_cons.mpr ⟨hq, onRoot_kindConditions p.root⟩
  rw [mem_rootsOf_sorted, reached_matched honRoot, reached_joined houter, hconditions,
    List.forall_mem_cons]
  constructor
  · rintro ⟨hr, hholds, hall⟩
    exact ⟨⟨hr, (holds_kindConditions_iff hs hdb hroot hr rfl).mp hall⟩, hholds⟩
  · rintro ⟨⟨hr, howns⟩, hholds⟩
    exact ⟨hr, hholds, (holds_kindConditions_iff hs hdb hroot hr rfl).mpr howns⟩

/-- Two filters that make the same predicate of a plan of the root make the same plan. -/
theorem plan_filteredBy_congr {key key' : String} {v' : Value}
    (h : ∀ p : Plan, p.root = root →
      p.parameterPredicate operators key v = p.parameterPredicate operators key' v') :
    (build s operators root (d.filteredBy key v)).plan =
      (build s operators root (d.filteredBy key' v')).plan := by
  rw [plan_build, plan_build]
  refine congrArg (Except.map fun filtered : Plan => filtered.withSort s d.sort.entries) ?_
  refine bind_congr_ok fun first hstart => bind_congr_ok fun joined hjoined => ?_
  have hroot := (frame_joined hstart (withRelations_eq_ok_iff.mp hjoined)).1
  change joined.addParameters operators [(key, v)] = joined.addParameters operators [(key', v')]
  unfold addParameters
  simp only [List.mapM_cons, List.mapM_nil, h joined hroot]

end Plan

namespace Repository

open Plan

variable {s : Schema} {db : Database} {r : Repository} {d : Descriptor} {f : String} {c : Column}

/-- The predicates of a fetch that succeeds can be bound. -/
theorem binds_of_fetchAll (hf : r.ReadsAfresh d) {a : Answer}
    (h : (run r (fetchAll s db (.descriptor d))).1 = .ok a) {p : Plan} (hp : planOf s r d = .ok p) :
    ∀ q ∈ p.predicates, q.Binds := by
  obtain ⟨p', o, roots, g, items, hp', -, hload, -⟩ := fetchAll_eq_ok hf h
  cases hp.symm.trans hp'
  obtain ⟨selection, hselection, hcheck, -⟩ := load_eq_ok hload
  have hbinds := (Select.check_eq_ok_iff.mp hcheck).1
  refine (binds_conditions_iff p).mp fun x hx => hbinds x ?_
  unfold Select.parameters
  rw [(frame_assemble hselection).1]
  exact List.mem_append_left _ (List.mem_append_right _ hx)

/-- What a query answers that is filtered by an operator on a field of the root. -/
def filteredAnswer (s : Schema) (db : Database) (r : Repository) (d : Descriptor) (f op : String)
    (v : Value) : Except QueryError Answer :=
  (run r (fetchAll s db (.descriptor (d.filteredBy (f ++ ":" ++ op) v)))).1

/-- Two answers split the rows of a root whose column is not null: no row is in both, and each is in one. -/
def SplitsValues (db : Database) (root : Entity) (c : Column) (a b : Answer) : Prop :=
  ∃ rs ts, ListsRoots db root a rs ∧ ListsRoots db root b ts ∧ (∀ x ∈ rs, x ∉ ts) ∧
    ∀ x, x ∈ rs ∨ x ∈ ts ↔ (x ∈ db.rows root.table ∧ root.Owns x) ∧ x.get c.name ≠ .null

/-- Two answers split all rows of a root: the first lists those whose column is null, the second the
others. -/
def SplitsNulls (db : Database) (root : Entity) (c : Column) (a b : Answer) : Prop :=
  ∃ rs ts, ListsRoots db root a rs ∧ ListsRoots db root b ts ∧
    (∀ x, x ∈ rs ↔ (x ∈ db.rows root.table ∧ root.Owns x) ∧ x.get c.name = .null) ∧
    ∀ x, x ∈ ts ↔ (x ∈ db.rows root.table ∧ root.Owns x) ∧ x.get c.name ≠ .null

section

variable (hs : s.WellFormed) (hdb : db.Sound s) (hids : s.Identifiers)
  (hroot : r.builder.root ∈ s.entities) (hd : d.DistinctAliases r.builder.root) (houter : d.Outer)
  (hlimit : d.limit = none) (hoffset : d.offset = none) (hindex : d.indexBy = none)
  (hf : r.ReadsAfresh d) (hc : r.builder.root.column? f = some c)

include hs hdb hids hroot hd houter hlimit hoffset hindex hf hc

/-- What a fetch lists that is filtered by a column of the root. -/
theorem fetchAll_filteredBy {op : String} (hop : ':' ∉ op.toList) {v : Value} {a : Answer}
    (ha : filteredAnswer s db r d f op v = .ok a) :
    ∃ o q rs, r.builder.operators.resolve op = .ok o ∧
      o.apply ⟨.entity 0, r.builder.root.aliasName, c⟩ v = .ok q ∧ q.Binds ∧
      ListsRoots db r.builder.root a rs ∧ ∀ x, x ∈ rs ↔
        (x ∈ db.rows r.builder.root.table ∧ r.builder.root.Owns x) ∧ q.holds [(.entity 0, x)] = true := by
  have hd' : (d.filteredBy (f ++ ":" ++ op) v).DistinctAliases r.builder.root := hd
  have houter' : (d.filteredBy (f ++ ":" ++ op) v).Outer := houter
  have hf' : r.ReadsAfresh (d.filteredBy (f ++ ":" ++ op) v) := hf
  obtain ⟨p, o, hp, ho, hlists⟩ := fetchAll_listsRoots hs hdb hroot hd' hf' hindex ha
  have hproot : p.root = r.builder.root := (build_frame hp).1
  obtain ⟨operator, q, hoperator, hq, hpredicates⟩ := predicates_filteredBy hids hroot hd hc hop hp
  have hfollows := (resolveJoins_eq_ok (layout_build hd' hp) (outline_eq_ok ho).1).2
  have houters := outer_of_asked houter' (build_joins hp) hfollows
  refine ⟨operator, q, _, hoperator, hq, binds_of_fetchAll hf' ha hp q (by simp [hpredicates]), hlists,
    fun x => ?_⟩
  rw [show (d.filteredBy (f ++ ":" ++ op) v).limit = none from hlimit,
    show (d.filteredBy (f ++ ":" ++ op) v).offset = none from hoffset, ← hproot]
  exact mem_rootsOf_filteredBy hs hdb (hproot ▸ hroot) houters (onRoot_apply rfl hq) hpredicates

/-- The fetches of two opposed filters split the rows of the root whose column is not null. -/
theorem splitsValues_opposed (hoperators : r.builder.operators.HasBuiltIn) {name name' : String}
    {v : Value} (h : Opposed name name' v) {a b : Answer}
    (ha : filteredAnswer s db r d f name v = .ok a) (hb : filteredAnswer s db r d f name' v = .ok b) :
    SplitsValues db r.builder.root c a b := by
  obtain ⟨hname, hname'⟩ := h.colonless
  obtain ⟨o, p, rs, ho, hp, hbinds, hrs, hmem⟩ :=
    fetchAll_filteredBy hs hdb hids hroot hd houter hlimit hoffset hindex hf hc hname ha
  obtain ⟨o', q, ts, ho', hq, -, hts, hmem'⟩ :=
    fetchAll_filteredBy hs hdb hids hroot hd houter hlimit hoffset hindex hf hc hname' hb
  have hopposite := opposite_of_opposed hoperators h ho ho' hp hq hbinds
  refine ⟨rs, ts, hrs, hts, fun x hx hx' => ?_, fun x => ?_⟩
  · have hfalse := hopposite.not_both ((hmem x).mp hx).2
    exact Bool.false_ne_true (hfalse.symm.trans ((hmem' x).mp hx').2)
  · rw [hmem, hmem', ← and_or_left, hopposite.either, get_root]

/-- The fetches of a test for null and of a test for its opposite split all rows of the root. -/
theorem splitsNulls_of_testsNull (hoperators : r.builder.operators.HasBuiltIn) {name name' : String}
    {v w : Value} (hnull : TestsNull name v true) (hvalue : TestsNull name' w false) {a b : Answer}
    (ha : filteredAnswer s db r d f name v = .ok a) (hb : filteredAnswer s db r d f name' w = .ok b) :
    SplitsNulls db r.builder.root c a b := by
  obtain ⟨o, p, rs, ho, hp, -, hrs, hmem⟩ :=
    fetchAll_filteredBy hs hdb hids hroot hd houter hlimit hoffset hindex hf hc hnull.colonless ha
  obtain ⟨o', q, ts, ho', hq, -, hts, hmem'⟩ :=
    fetchAll_filteredBy hs hdb hids hroot hd houter hlimit hoffset hindex hf hc hvalue.colonless hb
  obtain rfl := eq_nullTest_of_testsNull hoperators hnull ho hp
  obtain rfl := eq_nullTest_of_testsNull hoperators hvalue ho' hq
  refine ⟨rs, ts, hrs, hts, fun x => ?_, fun x => ?_⟩
  · simp [hmem, holds_nullTest_iff, get_root]
  · simp [hmem', holds_nullTest_iff, get_root]

end

/-- Two operators that make the same predicates of their values answer alike. -/
theorem filteredAnswer_congr (hids : s.Identifiers) (hroot : r.builder.root ∈ s.entities)
    (hoperators : r.builder.operators.HasBuiltIn) (hc : r.builder.root.column? f = some c)
    {name name' : String} {o o' : Operator} (ho : OperatorTable.builtIn.resolve name = .ok o)
    (ho' : OperatorTable.builtIn.resolve name' = .ok o') (hname : ':' ∉ name.toList)
    (hname' : ':' ∉ name'.toList) {v v' : Value} (h : ∀ column, o.apply column v = o'.apply column v') :
    filteredAnswer s db r d f name v = filteredAnswer s db r d f name' v' := by
  have hcolon := colonless_of_field hids hroot hc
  have hplan : planOf s r (d.filteredBy (f ++ ":" ++ name) v) =
      planOf s r (d.filteredBy (f ++ ":" ++ name') v') := by
    refine plan_filteredBy_congr fun p hp => ?_
    rw [parameterPredicate_append hids (hp ▸ hroot) hcolon hname,
      parameterPredicate_append hids (hp ▸ hroot) hcolon hname',
      OperatorTable.resolve_of_hasBuiltIn hoperators ho, OperatorTable.resolve_of_hasBuiltIn hoperators ho']
    exact congrArg (p.column f >>= ·) (funext h)
  unfold filteredAnswer
  rw [run_fetchAll, run_fetchAll]
  unfold answerAll
  rw [hplan]
  rfl

/-- The two names of the negated pattern answer alike. -/
theorem filteredAnswer_negatedLike (hids : s.Identifiers) (hroot : r.builder.root ∈ s.entities)
    (hoperators : r.builder.operators.HasBuiltIn) (hc : r.builder.root.column? f = some c) (v : Value) :
    filteredAnswer s db r d f "nlike" v = filteredAnswer s db r d f "notlike" v := by
  have hnegated : OperatorTable.builtIn.resolve "nlike" = .ok .negatedLike := rfl
  have hplain : OperatorTable.builtIn.resolve "notlike" = .ok .notLike := rfl
  exact filteredAnswer_congr hids hroot hoperators hc hnegated hplain (by decide) (by decide)
    fun column => apply_negatedLike column v

/-- Opposite operators split the rows of a root: two opposed comparisons split those whose column is not
null, two opposite tests for null split all, and the two names of the negated pattern answer alike. -/
theorem fetchAll_opposites (hs : s.WellFormed) (hdb : db.Sound s) (hids : s.Identifiers)
    (hroot : r.builder.root ∈ s.entities) (hoperators : r.builder.operators.HasBuiltIn)
    (hd : d.DistinctAliases r.builder.root) (houter : d.Outer) (hlimit : d.limit = none)
    (hoffset : d.offset = none) (hindex : d.indexBy = none) (hf : r.ReadsAfresh d)
    (hc : r.builder.root.column? f = some c) :
    (∀ name name' v, Opposed name name' v → ∀ a b, filteredAnswer s db r d f name v = .ok a →
      filteredAnswer s db r d f name' v = .ok b → SplitsValues db r.builder.root c a b) ∧
    (∀ name name' v w, TestsNull name v true → TestsNull name' w false →
      ∀ a b, filteredAnswer s db r d f name v = .ok a →
        filteredAnswer s db r d f name' w = .ok b → SplitsNulls db r.builder.root c a b) ∧
    ∀ v, filteredAnswer s db r d f "nlike" v = filteredAnswer s db r d f "notlike" v :=
  ⟨fun _ _ _ hopposed _ _ =>
      splitsValues_opposed hs hdb hids hroot hd houter hlimit hoffset hindex hf hc hoperators hopposed,
    fun _ _ _ _ hnull hvalue _ _ =>
      splitsNulls_of_testsNull hs hdb hids hroot hd houter hlimit hoffset hindex hf hc hoperators hnull
        hvalue,
    filteredAnswer_negatedLike hids hroot hoperators hc⟩

theorem opposites_commentedArticles : ∃ c a b a' b',
    Model.Blog.article.column? "deleted_at" = some c ∧
    filteredAnswer Model.sample Model.sampleRows (ofRoot Model.Blog.article) commentedArticles
      "deleted_at" "lt" (.moment ⟨2021, 1, 1, 0, 0, 0, 0⟩) = .ok a ∧
    filteredAnswer Model.sample Model.sampleRows (ofRoot Model.Blog.article) commentedArticles
      "deleted_at" "gte" (.moment ⟨2021, 1, 1, 0, 0, 0, 0⟩) = .ok b ∧
    SplitsValues Model.sampleRows Model.Blog.article c a b ∧
    filteredAnswer Model.sample Model.sampleRows (ofRoot Model.Blog.article) commentedArticles
      "deleted_at" "null" (.text "TRUE") = .ok a' ∧
    filteredAnswer Model.sample Model.sampleRows (ofRoot Model.Blog.article) commentedArticles
      "deleted_at" "isnotnull" .null = .ok b' ∧
    SplitsNulls Model.sampleRows Model.Blog.article c a' b' := by
  obtain ⟨hvalues, hnulls, -⟩ := fetchAll_opposites sample_wellFormed sampleRows_sound
    (by decide +kernel) (r := ofRoot Model.Blog.article) (d := commentedArticles) (f := "deleted_at")
    (by decide) (fun _ _ h => h) (by decide +kernel) (by decide +kernel) rfl rfl rfl
    (readsAfresh_of_uncached rfl) rfl
  have hrun : ∀ op v, (readInOrder? Model.sample Model.sampleRows (ofRoot Model.Blog.article)
      (commentedArticles.filteredBy ("deleted_at" ++ ":" ++ op) v)).isSome = true →
      ∃ a, filteredAnswer Model.sample Model.sampleRows (ofRoot Model.Blog.article)
        commentedArticles "deleted_at" op v = .ok a := by
    intro op v h
    obtain ⟨fetched, hfetched⟩ := Option.isSome_iff_exists.mp h
    exact ⟨_, fetchAll_inOrder rfl rfl hfetched⟩
  obtain ⟨a, ha⟩ := hrun "lt" (.moment ⟨2021, 1, 1, 0, 0, 0, 0⟩) (by decide +kernel)
  obtain ⟨b, hb⟩ := hrun "gte" (.moment ⟨2021, 1, 1, 0, 0, 0, 0⟩) (by decide +kernel)
  obtain ⟨a', ha'⟩ := hrun "null" (.text "TRUE") (by decide +kernel)
  obtain ⟨b', hb'⟩ := hrun "isnotnull" .null (by decide +kernel)
  have hless : Opposed "lt" "gte" (.moment ⟨2021, 1, 1, 0, 0, 0, 0⟩) := .less (by decide)
  have htrue : TestsNull "null" (.text "TRUE") true := .check (.text "TRUE")
  exact ⟨_, a, b, a', b', rfl, ha, hb, hvalues _ _ _ hless a b ha hb, ha', hb',
    hnulls _ _ _ _ htrue (.isNotNull .null) a' b' ha' hb'⟩

/-- In a list that starts with a floating-point number a text that writes NaN is bound to null: then
neither the list nor its negation keeps a row. -/
theorem not_splitsValues_listedNaN : ∃ c a b,
    (∀ v ∈ [Value.float (.ofRatio false 3 2), .text "nan"], v.Present) ∧
    Model.Blog.article.column? "views" = some c ∧
    filteredAnswer Model.sample Model.sampleRows (ofRoot Model.Blog.article) commentedArticles
      "views" "in" (.list [.float (.ofRatio false 3 2), .text "nan"]) = .ok a ∧
    filteredAnswer Model.sample Model.sampleRows (ofRoot Model.Blog.article) commentedArticles
      "views" "notin" (.list [.float (.ofRatio false 3 2), .text "nan"]) = .ok b ∧
    ¬ SplitsValues Model.sampleRows Model.Blog.article c a b := by
  have hempty : ∀ op, ((readInOrder? Model.sample Model.sampleRows (ofRoot Model.Blog.article)
      (commentedArticles.filteredBy ("views" ++ ":" ++ op)
        (.list [.float (.ofRatio false 3 2), .text "nan"]))).bind listed?).map List.isEmpty =
          some true →
      filteredAnswer Model.sample Model.sampleRows (ofRoot Model.Blog.article) commentedArticles
        "views" op (.list [.float (.ofRatio false 3 2), .text "nan"]) = .ok (.plain (.list [])) := by
    intro op h
    obtain ⟨items, hitems, hnone⟩ := fetchAll_listed Model.sample Model.sampleRows _ rfl rfl h
    rw [List.isEmpty_iff.mp hnone] at hitems
    exact hitems
  have hnil : ∀ rs, ListsRoots Model.sampleRows Model.Blog.article (.plain (.list [])) rs → rs = [] := by
    rintro rs ⟨⟨items, hitems, hstands⟩, -, -⟩
    cases hitems
    exact List.forall₂_nil_right_iff.mp hstands
  refine ⟨_, _, _, by decide +kernel, rfl, hempty "in" (by decide +kernel),
    hempty "notin" (by decide +kernel), ?_⟩
  rintro ⟨rs, ts, hrs, hts, -, hall⟩
  have htips := (hall (Model.Blog.articleRow 1 "Python tips" 120 .null 1)).mpr (by decide +kernel)
  rw [hnil rs hrs, hnil ts hts] at htips
  rcases htips with h | h <;> cases h

end Repository
end EntityQuery
