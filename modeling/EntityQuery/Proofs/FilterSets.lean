import EntityQuery.Proofs.OuterJoins
/-!
Filters as a conjunction. The parameters of a query keep what all of them keep: in another order they give
the same answer, and where they name columns of the root, two groups of them keep the roots that both keep.
-/
namespace EntityQuery

/-- Conditions in another order select the same rows. -/
theorem Select.rows_of_perm {q : Select} {conditions : List Predicate}
    (h : conditions.Perm q.conditions) (db : Database) :
    { q with conditions := conditions }.rows db = q.rows db := by
  have hall : ∀ row : JoinedRow, conditions.all (·.holds row) = q.conditions.all (·.holds row) :=
    fun _ => h.all_eq
  unfold rows
  simp only [hall]

namespace Plan

variable {s : Schema} {db : Database} {p q : Plan} {operators : OperatorTable Operator} {root : Entity}
  {d : Descriptor} {parameters : OrderedMap Value}

/-- With other parameters a plan has other predicates, and nothing else is changed. -/
theorem build_parameters (hp : (build s operators root d).plan = .ok p)
    (hq : (build s operators root { d with parameters := parameters }).plan = .ok q) :
    q = { p with predicates := parameters.entries.filterMap fun e =>
      (p.parameterPredicate operators e.1 e.2).toOption } := by
  have hpredicates := filterMap_of_mapM (predicates_build hq)
  obtain ⟨first, joined, filtered, hs, hr, hf, rfl⟩ := build_eq_ok hp
  obtain ⟨predicates, -, rfl⟩ := addParameters_eq_ok hf
  obtain ⟨first', joined', filtered', hs', hr', hf', rfl⟩ := build_eq_ok hq
  obtain ⟨predicates', -, rfl⟩ := addParameters_eq_ok hf'
  obtain rfl : first = first' := Except.ok.inj (hs.symm.trans hs')
  obtain rfl : joined = joined' := congrArg Prod.fst (hr.symm.trans hr')
  exact congrArg (fun predicates => ({ joined with predicates := predicates } : Plan).withSort s
    d.sort.entries) hpredicates

theorem joinsAs_parameters (hp : (build s operators root d).plan = .ok p)
    (hq : (build s operators root { d with parameters := parameters }).plan = .ok q) : q.JoinsAs p := by
  cases build_parameters hp hq
  exact ⟨rfl, rfl, rfl, rfl⟩

theorem outline_parameters (hp : (build s operators root d).plan = .ok p)
    (hq : (build s operators root { d with parameters := parameters }).plan = .ok q) :
    q.outline = p.outline := by
  refine (joinsAs_parameters hp hq).outline ?_
  cases build_parameters hp hq
  rfl

theorem predicates_split {P Q : OrderedMap Value} {pP pQ : Plan}
    (h : d.parameters.entries.Perm (P.entries ++ Q.entries)) (hp : (build s operators root d).plan = .ok p)
    (hP : (build s operators root { d with parameters := P }).plan = .ok pP)
    (hQ : (build s operators root { d with parameters := Q }).plan = .ok pQ) :
    p.predicates.Perm (pP.predicates ++ pQ.predicates) := by
  cases build_parameters hp hP
  cases build_parameters hp hQ
  rw [filterMap_of_mapM (predicates_build hp), ← List.filterMap_append]
  exact h.filterMap _

/-- The roots that two groups of parameters on the root keep together are those that each of them keeps. -/
theorem mem_rootsOf_split {P Q : OrderedMap Value} {pP pQ : Plan} (hd : d.DistinctAliases root)
    (hfilters : d.FiltersRoot root) (h : d.parameters.entries.Perm (P.entries ++ Q.entries))
    (hp : (build s operators root d).plan = .ok p)
    (hP : (build s operators root { d with parameters := P }).plan = .ok pP)
    (hQ : (build s operators root { d with parameters := Q }).plan = .ok pQ) {js : List ResolvedJoin}
    {order : List (ColumnRef × Direction)} {r : Row} :
    r ∈ rootsOf (p.sorted db js order) ↔
      r ∈ rootsOf (pP.sorted db js order) ∧ r ∈ rootsOf (pQ.sorted db js order) := by
  have hPfilters : ({ d with parameters := P } : Descriptor).FiltersRoot root := fun e he =>
    hfilters e (h.mem_iff.mpr (List.mem_append_left _ he))
  have hQfilters : ({ d with parameters := Q } : Descriptor).FiltersRoot root := fun e he =>
    hfilters e (h.mem_iff.mpr (List.mem_append_right _ he))
  have hPjoins := joinsAs_parameters hp hP
  have hQjoins := joinsAs_parameters hp hQ
  have hconditions : ∀ c, c ∈ p.conditions ↔ c ∈ pP.conditions ∨ c ∈ pQ.conditions := fun c => by
    simp only [conditions_eq_append, hPjoins.root, hQjoins.root, List.mem_append,
      (predicates_split h hp hP hQ).mem_iff]
    tauto
  rw [mem_rootsOf_sorted, mem_rootsOf_sorted, mem_rootsOf_sorted,
    reached_matched (conditions_onRoot hd hfilters hp),
    reached_matched (conditions_onRoot (d := { d with parameters := P }) hd hPfilters hP),
    reached_matched (conditions_onRoot (d := { d with parameters := Q }) hd hQfilters hQ),
    hPjoins.joined, hQjoins.joined]
  simp only [hconditions, or_imp, forall_and]
  tauto

end Plan

namespace Repository

open Plan

variable {s : Schema} {db : Database} {r : Repository} {d : Descriptor} {parameters : OrderedMap Value}

theorem conditions_perm {p q : Plan} (hp : planOf s r d = .ok p)
    (hq : planOf s r { d with parameters := parameters } = .ok q)
    (h : parameters.entries.Perm d.parameters.entries) : q.conditions.Perm p.conditions := by
  cases build_parameters hp hq
  rw [conditions_eq_append, conditions_eq_append p, filterMap_of_mapM (predicates_build hp)]
  exact (h.filterMap _).append_right _

/-- Plans with the same joins, whose conditions are the same in another order, count alike. -/
theorem countRows_of_perm {p q : Plan} (h : q.JoinsAs p) (hperm : q.conditions.Perm p.conditions)
    {n m : Nat} (hn : countRows s db p = .ok n) (hm : countRows s db q = .ok m) : m = n := by
  obtain ⟨keys, hkeys, hn⟩ := ok_of_bind hn
  obtain ⟨keys', hkeys', hm⟩ := ok_of_bind hm
  obtain ⟨⟨⟩, -, rfl⟩ := ok_of_map hn
  obtain ⟨⟨⟩, -, rfl⟩ := ok_of_map hm
  rw [h.keySelection, hkeys] at hkeys'
  cases hkeys'
  unfold Select.countDistinct
  rw [Select.rows_of_perm (conditions_keySelection hkeys ▸ hperm)]
  rfl

/-- Plans with the same joins, whose conditions are the same in another order, load alike. -/
theorem load_of_perm {p q : Plan} (h : q.JoinsAs p) (hperm : q.conditions.Perm p.conditions)
    (hlimit : q.limit = p.limit) (hoffset : q.offset = p.offset) {o : Outline}
    {out out' : List EntityKey × Graph} (hp : load s db p o = .ok out)
    (hq : load s db q o = .ok out') : out' = out := by
  obtain ⟨selection, hsel, -, hrows⟩ := load_eq_ok hp
  obtain ⟨selection', hsel', -, hrows'⟩ := load_eq_ok hq
  obtain ⟨hconditions, -, hl, ho⟩ := frame_assemble hsel
  rw [h.assemble, hsel] at hsel'
  cases hsel'
  have hsame : ({ selection.select with
      conditions := q.conditions, limit := q.limit, offset := q.offset } : Select).rows db =
      selection.select.rows db := by
    rw [hlimit, hoffset, ← hl, ← ho]
    exact Select.rows_of_perm (hconditions ▸ hperm) db
  rw [hsame] at hrows'
  exact Except.ok.inj (hrows'.symm.trans hrows)

/-- The parameters of a query in another order give the same answer. -/
theorem fetchAll_of_perm (hf : r.ReadsAfresh d) (h : parameters.entries.Perm d.parameters.entries)
    {a b : Answer} (ha : (run r (fetchAll s db (.descriptor d))).1 = .ok a)
    (hb : (run r (fetchAll s db (.descriptor { d with parameters := parameters }))).1 = .ok b) :
    b = a := by
  have hfresh : r.ReadsAfresh { d with parameters := parameters } := hf
  obtain ⟨p, o, roots, g, items, hp, ho, hload, hshape, hend⟩ := fetchAll_eq_ok hf ha
  obtain ⟨q, i, roots', g', items', hq, hi, hload', hshape', hend'⟩ := fetchAll_eq_ok hfresh hb
  have hperm := conditions_perm hp hq h
  have hjoins := joinsAs_parameters hp hq
  cases build_parameters hp hq
  rw [outline_parameters hp hq, ho] at hi
  cases hi
  cases load_of_perm hjoins hperm rfl rfl hload hload'
  cases hshape.symm.trans hshape'
  rcases hend with ⟨hplain, rfl⟩ | ⟨hpage, total, htotal, rfl⟩
  · rcases hend' with ⟨-, rfl⟩ | ⟨hpage, -⟩
    · rfl
    · cases hplain.symm.trans hpage
  · rcases hend' with ⟨hplain, -⟩ | ⟨-, total', htotal', rfl⟩
    · cases hplain.symm.trans hpage
    · cases countRows_of_perm hjoins hperm htotal htotal'
      rfl

theorem count_of_perm (h : parameters.entries.Perm d.parameters.entries) {n m : Nat}
    (hn : (run r (count s db (.descriptor d))).1 = .ok n)
    (hm : (run r (count s db (.descriptor { d with parameters := parameters }))).1 = .ok m) : m = n := by
  obtain ⟨p, hp, hn⟩ := count_eq_ok hn
  obtain ⟨q, hq, hm⟩ := count_eq_ok hm
  have hperm := conditions_perm hp hq h
  exact countRows_of_perm (joinsAs_parameters hp hq) hperm hn hm

/-- Parameters on the root keep the roots that two groups of them keep. -/
theorem fetchAll_split (hs : s.WellFormed) (hdb : db.Sound s) (hroot : r.builder.root ∈ s.entities)
    (hd : d.DistinctAliases r.builder.root) (hfilters : d.FiltersRoot r.builder.root)
    (hlimit : d.limit = none) (hoffset : d.offset = none) (hindex : d.indexBy = none)
    (hf : r.ReadsAfresh d) {P Q : OrderedMap Value}
    (hsplit : d.parameters.entries.Perm (P.entries ++ Q.entries)) {a b c : Answer}
    (ha : (run r (fetchAll s db (.descriptor d))).1 = .ok a)
    (hb : (run r (fetchAll s db (.descriptor { d with parameters := P }))).1 = .ok b)
    (hc : (run r (fetchAll s db (.descriptor { d with parameters := Q }))).1 = .ok c) :
    ∃ rs ts us, ListsRoots db r.builder.root a rs ∧ ListsRoots db r.builder.root b ts ∧
      ListsRoots db r.builder.root c us ∧ ∀ x, x ∈ rs ↔ x ∈ ts ∧ x ∈ us := by
  obtain ⟨p, o, hp, ho, hrs⟩ := fetchAll_listsRoots hs hdb hroot hd hf hindex ha
  obtain ⟨pP, oP, hP, hoP, hts⟩ :=
    fetchAll_listsRoots (d := { d with parameters := P }) hs hdb hroot hd hf hindex hb
  obtain ⟨pQ, oQ, hQ, hoQ, hus⟩ :=
    fetchAll_listsRoots (d := { d with parameters := Q }) hs hdb hroot hd hf hindex hc
  obtain rfl : o = oP := Except.ok.inj (ho.symm.trans ((outline_parameters hp hP).symm.trans hoP))
  obtain rfl : o = oQ := Except.ok.inj (ho.symm.trans ((outline_parameters hp hQ).symm.trans hoQ))
  refine ⟨_, _, _, hrs, hts, hus, fun x => ?_⟩
  rw [hlimit, hoffset]
  exact mem_rootsOf_split hd hfilters hsplit hp hP hQ

/-- Filters are a conjunction: in another order they give the same answer and the same count, and where
they name columns of the root, two groups of them keep the roots that both keep. -/
theorem fetchAll_conjunction (hs : s.WellFormed) (hdb : db.Sound s)
    (hroot : r.builder.root ∈ s.entities) (hd : d.DistinctAliases r.builder.root)
    (hlimit : d.limit = none) (hoffset : d.offset = none) (hindex : d.indexBy = none)
    (hf : r.ReadsAfresh d) :
    (∀ parameters : OrderedMap Value, parameters.entries.Perm d.parameters.entries →
      (∀ a b, (run r (fetchAll s db (.descriptor d))).1 = .ok a →
        (run r (fetchAll s db (.descriptor { d with parameters := parameters }))).1 = .ok b → b = a) ∧
      ∀ n m, (run r (count s db (.descriptor d))).1 = .ok n →
        (run r (count s db (.descriptor { d with parameters := parameters }))).1 = .ok m → m = n) ∧
    ∀ P Q : OrderedMap Value, d.parameters.entries.Perm (P.entries ++ Q.entries) →
      d.FiltersRoot r.builder.root → ∀ a b c,
        (run r (fetchAll s db (.descriptor d))).1 = .ok a →
        (run r (fetchAll s db (.descriptor { d with parameters := P }))).1 = .ok b →
        (run r (fetchAll s db (.descriptor { d with parameters := Q }))).1 = .ok c →
          ∃ rs ts us, ListsRoots db r.builder.root a rs ∧ ListsRoots db r.builder.root b ts ∧
            ListsRoots db r.builder.root c us ∧ ∀ x, x ∈ rs ↔ x ∈ ts ∧ x ∈ us :=
  ⟨fun _ hperm => ⟨fun _ _ => fetchAll_of_perm hf hperm, fun _ _ => count_of_perm hperm⟩,
    fun _ _ hsplit hfilters _ _ _ =>
      fetchAll_split hs hdb hroot hd hfilters hlimit hoffset hindex hf hsplit⟩

/-- Articles with their comments that have been seen often and are not deleted, by one or both filters. -/
def seenArticles (parameters : List (String × Value)) : Descriptor where
  parameters := .ofList parameters
  relations := .ofList [("comments", {})]
  hydration := .records

theorem conjunction_seenArticles : ∃ a b c,
    (run (ofRoot Model.Blog.article) (fetchAll Model.sample Model.sampleRows (.descriptor
      (seenArticles [("views:gt", .integer 20), ("deleted_at:isnull", .boolean true)])))).1 = .ok a ∧
    (run (ofRoot Model.Blog.article) (fetchAll Model.sample Model.sampleRows (.descriptor
      (seenArticles [("deleted_at:isnull", .boolean true), ("views:gt", .integer 20)])))).1 = .ok a ∧
    (run (ofRoot Model.Blog.article) (fetchAll Model.sample Model.sampleRows (.descriptor
      (seenArticles [("views:gt", .integer 20)])))).1 = .ok b ∧
    (run (ofRoot Model.Blog.article) (fetchAll Model.sample Model.sampleRows (.descriptor
      (seenArticles [("deleted_at:isnull", .boolean true)])))).1 = .ok c ∧
    ∃ rs ts us, ListsRoots Model.sampleRows Model.Blog.article a rs ∧
      ListsRoots Model.sampleRows Model.Blog.article b ts ∧
      ListsRoots Model.sampleRows Model.Blog.article c us ∧ ∀ x, x ∈ rs ↔ x ∈ ts ∧ x ∈ us := by
  obtain ⟨hperm, hsplit⟩ := fetchAll_conjunction sample_wellFormed sampleRows_sound
    (r := ofRoot Model.Blog.article)
    (d := seenArticles [("views:gt", .integer 20), ("deleted_at:isnull", .boolean true)])
    (by decide) (by decide +kernel) rfl rfl rfl (readsAfresh_of_uncached rfl)
  obtain ⟨a, ha, -⟩ := runs_inOrder Model.sample Model.sampleRows Model.Blog.article
    (d := seenArticles [("views:gt", .integer 20), ("deleted_at:isnull", .boolean true)]) rfl rfl
    (n := 1) (by decide +kernel)
  obtain ⟨a', ha', -⟩ := runs_inOrder Model.sample Model.sampleRows Model.Blog.article
    (d := seenArticles [("deleted_at:isnull", .boolean true), ("views:gt", .integer 20)]) rfl rfl
    (n := 1) (by decide +kernel)
  obtain ⟨b, hb, -⟩ := runs_inOrder Model.sample Model.sampleRows Model.Blog.article
    (d := seenArticles [("views:gt", .integer 20)]) rfl rfl (n := 2) (by decide +kernel)
  obtain ⟨c, hc, -⟩ := runs_inOrder Model.sample Model.sampleRows Model.Blog.article
    (d := seenArticles [("deleted_at:isnull", .boolean true)]) rfl rfl (n := 2) (by decide +kernel)
  obtain rfl := (hperm _ (.swap _ _ [])).1 a a' ha ha'
  exact ⟨a', b, c, ha, ha', hb, hc, hsplit _ _ (.refl _) (by decide +kernel) a' b c ha hb hc⟩

end Repository
end EntityQuery
