import EntityQuery.Proofs.NumberFilters
import EntityQuery.Proofs.QueryPairs
import EntityQuery.Proofs.Responses
/-!
The responses to filters by numbers. A route that is given the decimal texts of integers responds with
what a repository finds for the integers themselves: the roots whose column compares with them as asked.
-/
namespace EntityQuery

/-- A filter in place of the only one. -/
theorem Descriptor.withFilter_filteredBy (key : String) (v w : Value) (d : Descriptor) :
    (d.filteredBy key w).withFilter key v = d.filteredBy key v := by
  have hparameters : (OrderedMap.ofList [(key, w)]).insert key v = OrderedMap.ofList [(key, v)] := by
    refine OrderedMap.ext ?_
    change insertEntry key v [(key, w)] = [(key, v)]
    rw [insertEntry, if_pos rfl]
  exact congrArg (fun m => { d with parameters := m }) hparameters

namespace Plan

variable {s : Schema} {operators : OperatorTable Operator} {root : Entity}

/-- The plan of a filter alone. -/
theorem build_filteredBy {key : String} {v : Value} {q : Predicate}
    (h : (ofRoot root).parameterPredicate operators key v = .ok q) :
    (build s operators root (({} : Descriptor).filteredBy key v)).plan =
      .ok { ofRoot root with predicates := [q] } := by
  have hparameters : (ofRoot root).addParameters operators [(key, v)] =
      .ok { ofRoot root with predicates := [q] } := by
    unfold addParameters
    simp only [List.mapM_cons, List.mapM_nil, h]
    rfl
  rw [plan_build]
  change ((ofRoot root).addParameters operators [(key, v)]).map _ = _
  rw [hparameters]
  rfl

theorem namesApart_filtered (root : Entity) (q : Predicate) :
    NamesApart { ofRoot root with predicates := [q] } where
  aliases := List.nodup_singleton _
  scope js hjs := by
    cases hjs
    exact List.nodup_singleton _

end Plan

namespace QueryString

/-- Pairs of filters are filters alone. -/
theorem ofPairs_filterPairs {m : OrderedMap (List String)}
    (hm : ∀ e ∈ m.entries, CanStandInBrackets e.1 ∧ e.2 ≠ []) :
    ofPairs (filterPairs m) = { filters := m } := by
  have hkeys : ∀ p ∈ filterPairs m, ∃ name, bracketKey? p.1 = some (.filter, name) := by
    intro p hp
    obtain ⟨e, he, hp⟩ := List.mem_flatMap.mp hp
    obtain ⟨t, -, rfl⟩ := List.mem_map.mp hp
    exact ⟨e.1, bracketKey?_key (hm e he).1⟩
  have hnamed : ∀ kind, kind ≠ .filter → named kind (filterPairs m) = [] := by
    intro kind hkind
    refine List.filterMap_eq_nil_iff.mpr fun p hp => ?_
    obtain ⟨name, hname⟩ := hkeys p hp
    rw [hname]
    exact if_neg (Ne.symm hkind)
  have hgiven : ∀ key, given key (filterPairs m) = [] := by
    intro key
    refine List.filterMap_eq_nil_iff.mpr fun p hp => ?_
    obtain ⟨name, hname⟩ := hkeys p hp
    rw [hname]
    exact if_neg (by simp)
  rw [ofPairs_eq, named_filterPairs fun e he => (hm e he).1, gather_entries fun e he => (hm e he).2,
    hnamed .sort (by decide), hnamed .join (by decide), hgiven, hgiven, hgiven, hgiven, hgiven]
  rfl

/-- The pairs of a filter by integers: its key with the text of each of them. -/
def numberPairs (key : String) (ns : List ℤ) : List (String × String) :=
  ns.map fun n => (BracketKind.filter.key key, toString n)

variable {key : String}

theorem filterValues_numberPairs (hkey : CanStandInBrackets key) (ns : List ℤ) :
    filterValues (numberPairs key ns) key = ns.map toString := by
  unfold filterValues numberPairs
  rw [List.filterMap_map, ← List.filterMap_eq_map]
  refine List.filterMap_congr fun n _ => ?_
  exact if_pos (bracketKey?_key hkey)

/-- The pairs of a filter by integers write the descriptor that has this filter alone. -/
theorem descriptor_numberPairs (hkey : CanStandInBrackets key) {ns : List ℤ} (hns : ns ≠ []) :
    Resource.descriptor (numberPairs key ns) =
      .ok (({} : Descriptor).filteredBy key (filterValue (ns.map toString))) := by
  have hentries : (OrderedMap.ofList [(key, ns.map toString)]).entries = [(key, ns.map toString)] := rfl
  have hpairs : numberPairs key ns = filterPairs (.ofList [(key, ns.map toString)]) := by
    rw [filterPairs, hentries, List.flatMap_singleton, List.map_map]
    rfl
  unfold Resource.descriptor
  rw [hpairs, ofPairs_filterPairs]
  · rfl
  · rw [hentries, List.forall_mem_singleton]
    exact ⟨hkey, by simpa using hns⟩

end QueryString

section

variable {ending : String} {ns : List ℤ} {v : Value} {keeps : Cell → Prop}

theorem NumberFilter.newlineless (h : NumberFilter ending ns v keeps) : '\n' ∉ ending.toList := by
  cases h with
  | comparison hname n => simp [(plain_of_comparisonNames hname).2]
  | _ => decide

/-- The key of a filter of a field can stand in brackets. -/
theorem NumberFilter.canStandInBrackets (h : NumberFilter ending ns v keeps) {f : String}
    (hf : Text.isIdentifier f = true) : CanStandInBrackets (f ++ ending) := by
  refine ⟨?_, ?_⟩
  · rw [ne_eq, String.append_eq_empty_iff]
    exact fun hboth => Text.ne_empty_of_isIdentifier hf hboth.1
  · rw [String.toList_append, List.mem_append, not_or]
    exact ⟨Text.not_mem_of_isIdentifier (by decide +kernel) (by decide +kernel) hf, h.newlineless⟩

end

namespace Repository

open Plan

variable {s : Schema} {db : Database} {r : Repository} {root : Entity} {key : String} {v : Value}
  {q : Predicate}

/-- A fetch and a count by one filter on the root: the roots on which its predicate is true. -/
theorem listsRoots_filtered (hs : s.WellFormed) (hdb : db.Sound s) (hmem : root ∈ s.entities)
    (hroot : r.builder.root = root) (hq : OnRoot q)
    (hplan : planOf s r (({} : Descriptor).filteredBy key v) =
      .ok { Plan.ofRoot root with predicates := [q] })
    {a : Answer} (ha : (run r (fetchAll s db (.descriptor
      (({} : Descriptor).filteredBy key v)))).1 = .ok a) {n : ℕ}
    (hn : (run r (count s db (.descriptor (({} : Descriptor).filteredBy key v)))).1 = .ok n) :
    ∃ rs, ListsRoots db root a rs ∧ n = rs.length ∧ ∀ x, x ∈ rs ↔
      (x ∈ db.rows root.table ∧ root.Owns x) ∧ q.holds [(.entity 0, x)] = true := by
  have hdistinct : (({} : Descriptor).filteredBy key v).DistinctAliases r.builder.root :=
    List.nodup_singleton _
  have hmem' : r.builder.root ∈ s.entities := hroot ▸ hmem
  obtain ⟨p, o, hp, ho, hlists⟩ :=
    fetchAll_listsRoots hs hdb hmem' hdistinct (readsAfresh_of_uncached rfl) rfl ha
  obtain ⟨p', js, hp', hjs, hstaged, hmatched⟩ := count_matched hdistinct hn
  obtain ⟨items, rfl, hitems⟩ := fetchAll_unbounded_eq_ok hs hdb hmem' (readsAfresh_of_uncached rfl)
    hp' hjs hstaged ha
  refine ⟨_, hroot ▸ hlists, ?_, fun x => ?_⟩
  · obtain ⟨known, hknown, hstands⟩ := hlists.items
    cases hknown
    rw [hmatched, ← hitems, ← hstands.length_eq]
  · cases hplan.symm.trans hp
    have houter : ∀ j ∈ o.1, j.outer = true := by
      have hnone : Except.ok [] = Except.ok o.1 := (outline_eq_ok ho).1
      rw [← Except.ok.inj hnone]
      exact fun j hj => absurd hj List.not_mem_nil
    exact mem_rootsOf_filteredBy hs hdb hmem houter hq rfl

end Repository

variable {s : Schema} {db : Database} {r : Resource} {root : Entity}
  {operators : OperatorTable Operator} {ending : String} {ns : List ℤ} {v : Value}
  {keeps : Cell → Prop} {f : String} {c : Column} {repository : Repository}

namespace Resource

open Plan Repository

/-- A repository answers a filter by integers as one of the same root answers the filter by their texts. -/
theorem run_numbers (hids : s.Identifiers) (hoperators : operators.HasBuiltIn) (hmem : root ∈ s.entities)
    (hc : root.column? f = some c) (htype : c.type = .integer) (h : NumberFilter ending ns v keeps)
    (hns : ∀ n ∈ ns, inCellRange n = true) {query : List (String × String)} {d : Descriptor}
    (hvalues : QueryString.filterValues query (f ++ ending) = ns.map toString)
    (hd : descriptor query = .ok d) (hdistinct : d.DistinctAliases root)
    (hroot : repository.builder.root = root) (htable : repository.builder.operators = operators)
    {b : Builder} (hbroot : b.root = root) (hbtable : b.operators = operators) (db : Database) :
    (run repository (fetchAll s db (.descriptor (d.withFilter (f ++ ending) v)))).1 =
        (run ⟨b, none⟩ (fetchAll s db (.descriptor d))).1 ∧
      (run repository (Repository.count s db (.descriptor (d.withFilter (f ++ ending) v)))).1 =
        (run ⟨b, none⟩ (Repository.count s db (.descriptor d))).1 := by
  have hquery := Descriptor.fromQuery_of_descriptor hd
  have hgiven : (f ++ ending, QueryString.filterValue (ns.map toString)) ∈ d.parameters.entries := by
    rw [hquery.parameters, hvalues]
    exact ⟨by simpa using h.ne_nil, rfl⟩
  refine run_of_replaces hquery.cache ?_ db
  unfold planOf
  rw [hroot, htable, hbroot, hbtable]
  exact corresponds_numbers hids hoperators hmem hc htype h hns hdistinct hgiven

/-- Where a resource serves, a query string that asks for one filter is answered if its predicate can be
bound. -/
theorem exists_answers (hr : r.Serves s db root) {query : List (String × String)} {d : Descriptor}
    {q : Predicate} (hd : descriptor query = .ok d)
    (hplan : (Plan.build s operators root d).plan = .ok { Plan.ofRoot root with predicates := [q] })
    (hbinds : q.Binds) (hlimit : d.limit = none) (hoffset : d.offset = none) {b : Builder}
    (hroot : b.root = root) (htable : b.operators = operators) :
    ∃ a n, (run ⟨b, none⟩ (fetchAll s db (.descriptor d))).1 = .ok a ∧
      (run ⟨b, none⟩ (Repository.count s db (.descriptor d))).1 = .ok n ∧
      (answer? s db r a).isSome = true := by
  have hasks : Asks s operators root query d _ := ⟨hd, hplan⟩
  have hapart := namesApart_filtered root q
  have hsingle : ¬ RepeatsSingle operators root query :=
    (binds_predicates_iff (Descriptor.fromQuery_of_descriptor hd) hplan).mp
      (List.forall_mem_singleton.mpr hbinds)
  have hbounds : Storable d.limit ∧ Storable d.offset := by
    rw [hlimit, hoffset]
    exact ⟨fun n hn => (by cases hn), fun n hn => (by cases hn)⟩
  obtain ⟨-, a, ha, hshown⟩ := (settled_fetchAll hr hasks hapart hroot htable).resolve_right fun hno =>
    hno.1 ⟨hsingle, hbounds⟩
  obtain ⟨-, n, hn, -⟩ := (settled_count hr hasks hapart hroot htable).resolve_right fun hno =>
    hno.1 hsingle
  exact ⟨a, n, ha, hn, hshown⟩

/-- Where a resource serves, a filter by integers alone is answered: the fetch can be shown and lists the
roots whose column the filter keeps, and the count is their number. -/
theorem exists_numbers (hr : r.Serves s db root) (hoperators : operators.HasBuiltIn)
    (hc : root.column? f = some c) (htype : c.type = .integer) (h : NumberFilter ending ns v keeps)
    (hns : ∀ n ∈ ns, inCellRange n = true) (hroot : repository.builder.root = root)
    (htable : repository.builder.operators = operators) :
    ∃ a rs, (run repository (fetchAll s db (.descriptor
        (({} : Descriptor).filteredBy (f ++ ending) v)))).1 = .ok a ∧
      (run repository (Repository.count s db (.descriptor
        (({} : Descriptor).filteredBy (f ++ ending) v)))).1 = .ok rs.length ∧
      (answer? s db r a).isSome = true ∧ ListsRoots db root a rs ∧
      ∀ x, x ∈ rs ↔ (x ∈ db.rows root.table ∧ root.Owns x) ∧ keeps (x.get c.name) := by
  obtain ⟨o, ho, htakes⟩ := h.takesNumbers hns
  obtain ⟨q, q', hq, hq', -, hbinds, hholds⟩ := htakes ⟨.entity 0, root.aliasName, c⟩ htype
  have hread := parameterPredicate_end ho hr.identifiers hoperators (layout_ofRoot s root) hr.root_mem hc
  -- the texts make a plan that runs, so the integers have an answer, too
  have hkey := h.canStandInBrackets (hr.identifiers.field hr.root_mem hc)
  have hdescriptor := QueryString.descriptor_numberPairs hkey h.ne_nil
  obtain ⟨a, n, ha, hn, hshown⟩ := exists_answers hr hdescriptor
    (build_filteredBy ((hread _).trans hq')) hbinds rfl rfl hroot htable
  obtain ⟨hfetch, hcount⟩ := run_numbers hr.identifiers hoperators hr.root_mem hc htype h hns
    (QueryString.filterValues_numberPairs hkey ns) hdescriptor (List.nodup_singleton _) hroot htable
    hroot htable db
  rw [Descriptor.withFilter_filteredBy] at hfetch hcount
  have hplanOf : planOf s repository (({} : Descriptor).filteredBy (f ++ ending) v) =
      .ok { Plan.ofRoot root with predicates := [q] } := by
    unfold planOf
    rw [hroot, htable]
    exact build_filteredBy ((hread v).trans hq)
  obtain ⟨rs, hlists, rfl, hrows⟩ := listsRoots_filtered hr.schema hr.database hr.root_mem hroot
    (onRoot_apply rfl hq) hplanOf (hfetch.trans ha) (hcount.trans hn)
  refine ⟨a, rs, hfetch.trans ha, hcount.trans hn, hshown, hlists, fun x => ?_⟩
  rw [hrows, hholds, get_root]

end Resource

namespace Router

open Plan Repository Resource

/-- The requests for a list and for a count of a resource under a query string are responded to with what
a repository answers for a descriptor. -/
structure RespondsAs (s : Schema) (db : Database) (operators : OperatorTable Operator) (router : Router)
    (r : Resource) (query : List (String × String)) (repository : Repository) (d : Descriptor) :
    Prop where
  list : ∀ q : Request, Text.upper q.method = "GET" → q.query = query →
    router.find? q.path = some (r, .list) → respond s operators router db q =
      responseOf (fun a => .ofShown (answer? s db r a))
        (run repository (fetchAll s db (.descriptor d))).1
  count : ∀ q : Request, Text.upper q.method = "GET" → q.query = query →
    router.find? q.path = some (r, .count) → respond s operators router db q =
      responseOf (fun n : ℕ => .success (.mapping [(.text "count", .integer n)]))
        (run repository (Repository.count s db (.descriptor d))).1

variable {router : Router}

/-- A query string that gives texts for integers is responded to as the descriptor with the integers. -/
theorem respondsAs_withFilter (hentity : s.entity? r.entity = some root) (hids : s.Identifiers)
    (hoperators : operators.HasBuiltIn) (hc : root.column? f = some c) (htype : c.type = .integer)
    (h : NumberFilter ending ns v keeps) (hns : ∀ n ∈ ns, inCellRange n = true)
    {query : List (String × String)} {d : Descriptor}
    (hvalues : QueryString.filterValues query (f ++ ending) = ns.map toString)
    (hd : descriptor query = .ok d) (hdistinct : d.DistinctAliases root)
    (hroot : repository.builder.root = root) (htable : repository.builder.operators = operators) :
    RespondsAs s db operators router r query repository (d.withFilter (f ++ ending) v) := by
  have hrun : ∀ {b : Builder}, b.root = root → b.operators = operators → _ := fun hbroot hbtable =>
    run_numbers hids hoperators (List.mem_of_find?_eq_some hentity) hc htype h hns hvalues hd hdistinct
      hroot htable hbroot hbtable db
  constructor
  · rintro q hmethod rfl hfound
    obtain ⟨b, hbroot, hbtable, hb⟩ := perform_eq (s := s) operators hentity
      (fetchAll s db (.descriptor d)) fun a => .ofShown (answer? s db r a)
    rw [respond_of_find? hmethod hfound, Resource.respond, hd]
    exact hb.trans (congrArg _ (hrun hbroot hbtable).1.symm)
  · rintro q hmethod rfl hfound
    obtain ⟨b, hbroot, hbtable, hb⟩ := perform_eq (s := s) operators hentity
      (Repository.count s db (.descriptor d)) fun n : ℕ => .success (.mapping [(.text "count", .integer n)])
    rw [respond_of_find? hmethod hfound, Resource.respond, hd]
    exact hb.trans (congrArg _ (hrun hbroot hbtable).2.symm)

/-- A filter on a column of integers keeps the same roots for the texts of integers as for the integers:
whatever else a query string asks for, and whatever the rows are, the list and the count that are responded
are those of the descriptor with the integers. For a filter alone, where a resource serves, they are there
and have exactly the roots whose column compares with the integers as asked. -/
theorem respond_numbers (hentity : s.entity? r.entity = some root) (hids : s.Identifiers)
    (hoperators : operators.HasBuiltIn) (hc : root.column? f = some c) (htype : c.type = .integer)
    (h : NumberFilter ending ns v keeps) (hns : ∀ n ∈ ns, inCellRange n = true)
    (hroot : repository.builder.root = root) (htable : repository.builder.operators = operators) :
    (∀ query d, QueryString.filterValues query (f ++ ending) = ns.map toString →
      descriptor query = .ok d → d.DistinctAliases root →
        RespondsAs s db operators router r query repository (d.withFilter (f ++ ending) v)) ∧
    RespondsAs s db operators router r (QueryString.numberPairs (f ++ ending) ns) repository
      (({} : Descriptor).filteredBy (f ++ ending) v) ∧
    (r.Serves s db root →
      ∃ a rs, (run repository (fetchAll s db (.descriptor
          (({} : Descriptor).filteredBy (f ++ ending) v)))).1 = .ok a ∧
        (run repository (Repository.count s db (.descriptor
          (({} : Descriptor).filteredBy (f ++ ending) v)))).1 = .ok rs.length ∧
        (answer? s db r a).isSome = true ∧ ListsRoots db root a rs ∧
        ∀ x, x ∈ rs ↔ (x ∈ db.rows root.table ∧ root.Owns x) ∧ keeps (x.get c.name)) := by
  have hkey := h.canStandInBrackets (hids.field (List.mem_of_find?_eq_some hentity) hc)
  refine ⟨fun query d hvalues hd hdistinct => ?_, ?_, fun hr => ?_⟩
  · exact respondsAs_withFilter hentity hids hoperators hc htype h hns hvalues hd hdistinct hroot htable
  · rw [← Descriptor.withFilter_filteredBy (f ++ ending) v (QueryString.filterValue (ns.map toString))]
    exact respondsAs_withFilter hentity hids hoperators hc htype h hns
      (QueryString.filterValues_numberPairs hkey ns) (QueryString.descriptor_numberPairs hkey h.ne_nil)
      (List.nodup_singleton _) hroot htable
  · exact exists_numbers hr hoperators hc htype h hns hroot htable

/-- The articles that are viewed more than nine times; as texts, none of their numbers is behind nine. -/
theorem respond_viewedArticles : ∃ a rs,
    (run (Repository.ofRoot Model.Blog.article) (fetchAll Model.sample Model.sampleRows (.descriptor
      (({} : Descriptor).filteredBy "views:gt" (.integer 9))))).1 = .ok a ∧
    respond Model.sample .builtIn Model.router Model.sampleRows
        { path := "/articles", query := [("filter[views:gt]", "9")] } =
      .ofShown (answer? Model.sample Model.sampleRows Model.articles a) ∧
    respond Model.sample .builtIn Model.router Model.sampleRows
        { path := "/articles/count", query := [("filter[views:gt]", "9")] } =
      .success (.mapping [(.text "count", .integer rs.length)]) ∧
    ListsRoots Model.sampleRows Model.Blog.article a rs ∧
    Model.Blog.articleRow 2 "SQL basics" 15 .null 2 ∈ rs := by
  have hgreater : ("gt", Comparison.greater) ∈ comparisonNames := by decide
  obtain ⟨-, halone, hserves⟩ :
      _ ∧ RespondsAs Model.sample Model.sampleRows .builtIn Model.router Model.articles _
        (Repository.ofRoot Model.Blog.article) _ ∧ _ :=
    respond_numbers (f := "views") articles_serves.entity sample_identifiers (fun _ _ h => h) rfl rfl
      (.comparison hgreater 9) (by decide) rfl rfl
  obtain ⟨a, rs, ha, hn, -, hlists, hrows⟩ := hserves articles_serves
  have hkey : "views" ++ (":" ++ "gt") = "views:gt" := by decide +kernel
  have hpairs : QueryString.numberPairs ("views" ++ (":" ++ "gt")) [9] = [("filter[views:gt]", "9")] := by
    decide +kernel
  rw [hkey] at ha hn
  rw [hpairs, hkey] at halone
  refine ⟨a, rs, ha, ?_, ?_, hlists, (hrows _).mpr ?_⟩
  · rw [halone.list _ (by decide +kernel) rfl (by decide +kernel), ha]
    rfl
  · rw [halone.count _ (by decide +kernel) rfl (by decide +kernel), hn]
    rfl
  · decide +kernel

end Router
end EntityQuery
