import EntityQuery.Proofs.JoinPaths
import EntityQuery.Proofs.LinkConditions
import EntityQuery.Proofs.Unsorted
/-!
Conditions that narrow a join and conditions that replace its link. Where a link sets a column of the source
equal to a column of the target, the condition that narrows the join gives the same as this equality and the
condition in the place of the link.
-/
namespace EntityQuery

namespace Plan

variable {s : Schema} {p : Plan} {j : JoinClause} {near far : Column}

/-! ### Following the joins -/

theorem eq_of_findJoin (hp : p.Layout s) {k : JoinClause} (hk : k ∈ p.joins)
    (hj : p.findJoin k.aliasName = some j) : k = j := by
  obtain ⟨i, hi⟩ := List.mem_iff_getElem?.mp hk
  exact Option.some.inj ((findJoin_eq_some hp hi).symm.trans hj)

theorem resolveJoin_replacedAt (hp : p.Layout s) {a : String} (hj : p.findJoin a = some j)
    {extra on : Predicate} (hpredicate : j.predicate = .ok (.linked (some extra))) {k : JoinClause}
    (hk : k ∈ p.joins) (place : Nat) :
    (p.mapJoins (·.replacedAt a on)).resolveJoin place (k.replacedAt a on) =
      (p.resolveJoin place k).map (·.replacedAt a on) := by
  have hkeeps := JoinClause.keeps_replacedAt a on
  have hsource := source_mapJoins hkeeps p k
  have hrelationship := relationship_mapJoins hkeeps p k
  have halias : (k.occurrence place).aliasName = k.aliasName := rfl
  unfold resolveJoin
  rw [hsource, hrelationship, hkeeps.occurrence, hkeeps.fields]
  rcases p.relationship k with e | r
  · rfl
  by_cases hka : k.aliasName = a
  · subst hka
    obtain rfl := eq_of_findJoin hp hk hj
    have hreplaced : (k.replacedAt k.aliasName on).predicate = .ok (.replaced on) := by
      simp [JoinClause.replacedAt, JoinClause.predicate]
    have htype : (k.replacedAt k.aliasName on).joinType = k.joinType := by simp [JoinClause.replacedAt]
    simp [hreplaced, hpredicate, htype, bind, Except.bind, Except.map, ResolvedJoin.replacedAt, halias]
  · have hsame : k.replacedAt a on = k := if_neg hka
    rw [hsame]
    rcases k.predicate with e | predicate
    · rfl
    · simp [bind, Except.bind, Except.map, ResolvedJoin.replacedAt, halias, hka]

/-- What a join under an alias is followed to. -/
theorem followed_of_alias (hp : p.Layout s) {js : List ResolvedJoin} (hjs : p.resolveJoins = .ok js)
    {r : ResolvedJoin} (hr : r ∈ js) (hj : p.findJoin r.target.aliasName = some j) :
    r.source = p.source j ∧ p.names.find? j.aliasName = some r.target ∧
      p.relationship j = .ok r.relationship ∧ j.predicate = .ok r.predicate := by
  obtain ⟨i, hi⟩ := List.mem_iff_getElem?.mp hr
  obtain ⟨c, hc, hresolved⟩ := resolveJoin_of_resolveJoinsFrom hjs hi
  rw [Nat.zero_add] at hresolved
  unfold resolveJoin at hresolved
  obtain ⟨relationship, hrelationship, hresolved⟩ := ok_of_bind hresolved
  obtain ⟨predicate, hpredicate, hresolved⟩ := ok_of_bind hresolved
  cases hresolved
  obtain rfl := eq_of_findJoin hp (List.mem_of_getElem? hc) hj
  exact ⟨rfl, hp.join_name i c hc, hrelationship, hpredicate⟩

theorem linkPredicate_of_links (hlinks : p.Links j near far) {r : ResolvedJoin}
    (hr : p.relationship j = .ok r.relationship) (n : Nat) : ∃ q, linkPredicate r n = .direct q ∧
      IsEquality (r.source.columnNamed near.name) (r.target.columnNamed far.name) q := by
  obtain ⟨relationship, hrelationship, hcolumns⟩ := hlinks.link
  cases hr.symm.trans hrelationship
  unfold linkPredicate
  cases hlink : r.relationship.link with
  | owns key foreign =>
    rw [hlink] at hcolumns
    cases hcolumns
    exact ⟨_, rfl, .inl rfl⟩
  | refers foreign key =>
    rw [hlink] at hcolumns
    cases hcolumns
    exact ⟨_, rfl, .inr rfl⟩
  | through =>
    rw [hlink] at hcolumns
    cases hcolumns

/-- A column of an occurrence, where no names in the statements are alike. -/
def InReach (p : Plan) (c : ColumnRef) : Prop :=
  p.NamesApart ∧ ∃ k o, p.occurrence? k = some o ∧ o.Names c

theorem resolves_inReach (hs : s.WellFormed) (hroot : p.root ∈ s.entities) (hp : p.Layout s)
    {js : List ResolvedJoin} (hjs : p.resolveJoins = .ok js) {c : ColumnRef} (hc : p.InReach c) :
    s.resolves (p.joined js).scope c = true := by
  obtain ⟨hapart, k, o, ho, hname⟩ := hc
  obtain ⟨hst, hfollows⟩ := resolveJoins_eq_ok hp hjs
  have hk : k ≤ js.length := hfollows.length_eq ▸ lt_of_occurrence?_eq_some ho
  rw [scope_joined]
  exact resolves_names hs hroot hst (hapart.scope js hjs) hk ho hname

theorem names_of_links (hs : s.WellFormed) (hroot : p.root ∈ s.entities) (hp : p.Layout s) {place : Nat}
    (hj : p.joins[place]? = some j) (hlinks : p.Links j near far) {c : ColumnRef}
    (hc : c = (p.source j).columnNamed near.name ∨ c = (j.occurrence place).columnNamed far.name) :
    ∃ k o, p.occurrence? k = some o ∧ o.Names c := by
  have hnames : ∀ {k : Nat} {o : Occurrence} {column : Column}, p.occurrence? k = some o →
      column ∈ o.entity.columns → o.Names (o.columnNamed column.name) := fun {k o column} ho hcolumn =>
    ⟨column, hcolumn, by
      rw [Occurrence.columnNamed, columnNamed_of_mem hs (entity_of_occurrence? hp hroot ho) hcolumn]⟩
  rcases hc with rfl | rfl
  · obtain ⟨⟨k, -, hk⟩, -⟩ := hp.sourced place j hj
    exact ⟨k, _, hk, hnames hk hlinks.near⟩
  · have htarget : p.occurrence? (place + 1) = some (j.occurrence place) := by simp [occurrence?, hj]
    exact ⟨place + 1, _, htarget, hnames htarget hlinks.far⟩

/-- The plan with the equality of the link and a condition in the place of the link restates the plan with
this condition, and the other way round. Where nothing can hold no column of the link is named any more. -/
theorem restates_replacedAt (hs : s.WellFormed) (hroot : p.root ∈ s.entities) (hp : p.Layout s)
    {place : Nat} (hj : p.joins[place]? = some j) (hlinks : p.Links j near far) {q extra on : Predicate}
    (hq : IsEquality ((p.source j).columnNamed near.name) ((j.occurrence place).columnNamed far.name) q)
    (hpredicate : j.predicate = .ok (.linked (some extra))) (hon : q.Conjoined extra on) :
    Restates s p.InReach (p.mapJoins (·.replacedAt j.aliasName on)) p ∧
      ((on = .constant false → p.NamesApart) →
        Restates s p.InReach p (p.mapJoins (·.replacedAt j.aliasName on))) := by
  have hfind := findJoin_eq_some hp hj
  have hresolve : (p.mapJoins (·.replacedAt j.aliasName on)).resolveJoins =
      p.resolveJoins.map (List.map (·.replacedAt j.aliasName on)) :=
    resolveJoins_mapJoins fun k hk place => resolveJoin_replacedAt hp hfind hpredicate hk place
  have hknown : ∀ js, p.resolveJoins = .ok js → ∀ c, p.InReach c →
      s.resolves (p.joined js).scope c = true := fun js hjs c hc => resolves_inReach hs hroot hp hjs hc
  have hlinked : ∀ js, p.resolveJoins = .ok js → ∀ r ∈ js, r.target.aliasName = j.aliasName →
      ∃ link, r.on? = some (Predicate.conjunction [link, extra]) ∧
        (r.replacedAt j.aliasName on).on? = some on ∧ IsEquality ((p.source j).columnNamed near.name)
          ((j.occurrence place).columnNamed far.name) link := by
    intro js hjs r hr ha
    obtain ⟨hsource, hfound, hrelationship, hlinked⟩ := followed_of_alias hp hjs hr (ha ▸ hfind)
    obtain ⟨link, hlink, hequality⟩ := linkPredicate_of_links hlinks hrelationship 0
    rw [hsource, ← Option.some.inj ((hp.join_name place j hj).symm.trans hfound)] at hequality
    have hextra : r.predicate = .linked (some extra) := Except.ok.inj (hlinked.symm.trans hpredicate)
    refine ⟨link, ?_, ?_, hequality⟩
    · simp [ResolvedJoin.on?, hextra, hlink, narrowed]
    · simp [ResolvedJoin.on?, ResolvedJoin.replacedAt, ha]
  have hkeeps := ResolvedJoin.keeps_replacedAt j.aliasName on
  have houter : ∀ r : ResolvedJoin, (r.replacedAt j.aliasName on).outer = r.outer := fun r => by
    unfold ResolvedJoin.replacedAt
    split <;> rfl
  constructor
  · refine restates_mapJoins (JoinClause.keeps_replacedAt _ on) hkeeps hp hresolve hknown
      fun js hjs r hr => ?_
    by_cases ha : r.target.aliasName = j.aliasName
    · obtain ⟨link, hnarrowed, hreplaced, hlink⟩ := hlinked js hjs r hr ha
      exact .inr ⟨hkeeps.target r, houter r, _, _, hreplaced, hnarrowed, hon.restates (hq.restates hlink)⟩
    · exact .inl (if_neg ha)
  · intro hapart
    refine restated_mapJoins (JoinClause.keeps_replacedAt _ on) hkeeps hp hresolve hknown
      fun js hjs r hr => ?_
    by_cases ha : r.target.aliasName = j.aliasName
    · obtain ⟨link, hnarrowed, hreplaced, hlink⟩ := hlinked js hjs r hr ha
      exact .inr ⟨(hkeeps.target r).symm, (houter r).symm, _, _, hnarrowed, hreplaced,
        hon.restated (hlink.restates hq) hlink.parameters fun hnever c hc =>
          ⟨hapart hnever, names_of_links hs hroot hp hj hlinks (hlink.columns hc)⟩⟩
    · exact .inl (if_neg ha).symm

end Plan

/-! ### Queries -/

namespace Repository

open Plan

variable {s : Schema} {db : Database} {r : Repository} {d e : Descriptor}

/-- A query gives the answers and the counts that another one gives. -/
structure GivesAll (s : Schema) (db : Database) (r : Repository) (e d : Descriptor) : Prop where
  answer : ∀ a, (run r (fetchAll s db (.descriptor d))).1 = .ok a →
    (run r (fetchAll s db (.descriptor e))).1 = .ok a
  count : ∀ n, (run r (Repository.count s db (.descriptor d))).1 = .ok n →
    (run r (Repository.count s db (.descriptor e))).1 = .ok n

/-- A condition narrows a join along an equality of two columns to what the equality and this condition give
in the place of the link. A condition that is never true leaves no columns there, so the second query may run
where a name in the link differs from another one in the case of its letters only. -/
theorem givesAll_replacing {p : Plan} {key : String} {o : RelationOptions} {j : JoinClause}
    {near far : Column} {link : Condition Value} {both : Value} (hs : s.WellFormed) (hids : s.Identifiers)
    (hroot : r.builder.root ∈ s.entities) (hd : d.DistinctAliases r.builder.root)
    (hrel : d.relations.find? key = some o) (htype : o.conditionType ≠ some .replaces)
    (hp : planOf s r d = .ok p) (hj : p.findJoin (joinAlias key o) = some j) (hlinks : p.Links j near far)
    (hlink : j.Equates near far link) (hboth : Conjoins link o.condition both) (hf : r.ReadsAfresh d) :
    GivesAll s db r (d.replacing key o both) d ∧
      (p.NamesApart ∨ both ≠ .constant false → GivesAll s db r d (d.replacing key o both)) := by
  have hlayout := layout_build hd hp
  have hproot : p.root ∈ s.entities := (build_frame hp).1 ▸ hroot
  obtain ⟨names, hnear, hfar, hcondition, htyped, hreplaced⟩ := exists_stage hd hrel hp hj
  obtain ⟨place, hplace⟩ := List.mem_iff_getElem?.mp (List.mem_of_find?_eq_some hj)
  have halias : j.aliasName = joinAlias key o := by simpa using List.find?_some hj
  obtain ⟨k, -, source, relationship, hsource, hname, -, htarget⟩ := hlayout.source place j hplace
  have hfound : p.source j = source := source_eq hlayout hsource hname
  have hregistered : p.names.find? j.sourceAlias = some (p.source j) := by
    rw [← hname, occurrence?_name hlayout hsource, hfound]
  rw [hregistered] at hnear
  rw [hlayout.join_name place j hplace] at hfar
  obtain ⟨q, hq, hequality⟩ := build_equates hs hids hlinks hlink
    (hfound ▸ entity_of_occurrence? hlayout hproot hsource) (List.mem_of_find?_eq_some htarget)
    hnear hfar
  have hcolumns : q.columns ≠ [] := by
    rcases hequality with rfl | rfl <;> simp [columns_equality]
  have hnarrows : j.conditionType ≠ some .replaces := by
    rcases htyped with h | h <;> rw [h]
    · exact Option.some_ne_none _ |>.symm
    · exact htype
  obtain ⟨extra, on, hpredicate, hon, hconjoined, hnever⟩ :=
    ofValue_conjoins hq hcolumns hboth hcondition hnarrows
  have hplan := hreplaced both on hon
  rw [← halias] at hplan
  obtain ⟨hthere, hback⟩ :=
    restates_replacedAt hs hproot hlayout hplace hlinks hequality hpredicate hconjoined
  constructor
  · exact ⟨fun a => fetchAll_of_restates hthere hp hplan hf hf rfl,
      fun n => count_of_restates hthere hp hplan⟩
  · intro hapart
    have hrestates := hback fun hfalse => hapart.resolve_right fun hne => hne (hnever hfalse)
    exact ⟨fun a => fetchAll_of_restates hrestates hplan hp hf hf rfl,
      fun n => count_of_restates hrestates hplan hp⟩

/-- Articles with the comments of one text, and with the authors of these. -/
def greatComments : Descriptor where
  relations := .ofList
    [("comments", { joinAlias := some "c"
                    condition := .condition (.compareValue .equal "c.text" (.text "great")) }),
     ("c.author", {})]

/-- The condition of these comments, in the place of their link. -/
def greatCommentsOfArticle : Value :=
  .condition (.all [.compareField .equal "c.article_id" "article.id",
    .compareValue .equal "c.text" (.text "great")])

theorem givesAll_greatComments : ∃ o items n, items.length = 3 ∧
    greatComments.relations.find? "comments" = some o ∧
    (run (ofRoot Model.Blog.article)
      (fetchAll Model.sample Model.sampleRows (.descriptor greatComments))).1 =
        .ok (.plain (.list items)) ∧
    (run (ofRoot Model.Blog.article) (fetchAll Model.sample Model.sampleRows
      (.descriptor (greatComments.replacing "comments" o greatCommentsOfArticle)))).1 =
        .ok (.plain (.list items)) ∧
    (run (ofRoot Model.Blog.article)
      (count Model.sample Model.sampleRows (.descriptor greatComments))).1 = .ok n ∧
    (run (ofRoot Model.Blog.article) (count Model.sample Model.sampleRows
      (.descriptor (greatComments.replacing "comments" o greatCommentsOfArticle)))).1 = .ok n ∧
    GivesAll Model.sample Model.sampleRows (ofRoot Model.Blog.article) greatComments
      (greatComments.replacing "comments" o greatCommentsOfArticle) := by
  obtain ⟨o, hrel, halias, htype, hcondition⟩ : ∃ o,
      greatComments.relations.find? "comments" = some o ∧ joinAlias "comments" o = "c" ∧ o.conditionType ≠ some .replaces ∧
        o.condition = .condition (.compareValue .equal "c.text" (.text "great")) :=
    ⟨_, rfl, by decide +kernel, by decide +kernel, rfl⟩
  obtain ⟨j, hplanned⟩ : ∃ j,
      (planOf Model.sample (ofRoot Model.Blog.article) greatComments).toOption.bind (·.findJoin "c") =
        some j := Option.isSome_iff_exists.mp (by decide +kernel)
  obtain ⟨p, hp, hj⟩ := Option.bind_eq_some_iff.mp hplanned
  have hjoin : ∀ p ∈ (planOf Model.sample (ofRoot Model.Blog.article) greatComments).toOption,
      ∀ j ∈ p.findJoin "c", j.sourceAlias = "article" ∧ j.aliasName = "c" ∧
        (p.relationship j).toOption.bind (·.link.columns?) = some ("id", "article_id") ∧
          Model.Blog.integerKey ∈ (p.source j).entity.columns ∧
            Model.Blog.integerColumn "article_id" ∈ j.target.columns := by decide +kernel
  obtain ⟨hsource, htarget, hcolumns, hnear, hfar⟩ := hjoin p hp j hj
  obtain ⟨relationship, hrelationship, hcolumns⟩ := Option.bind_eq_some_iff.mp hcolumns
  have hequates : j.Equates Model.Blog.integerKey (Model.Blog.integerColumn "article_id")
      (.compareField .equal "c.article_id" "article.id") := by
    have h : j.Equates Model.Blog.integerKey (Model.Blog.integerColumn "article_id") _ := .fromTarget
    rwa [hsource, htarget, show "c" ++ "." ++ (Model.Blog.integerColumn "article_id").field = "c.article_id"
      by decide, show "article" ++ "." ++ Model.Blog.integerKey.field = "article.id" by decide] at h
  have hboth : Conjoins (.compareField .equal "c.article_id" "article.id") o.condition
      greatCommentsOfArticle := by
    rw [hcondition]
    exact .expression _
  have hlinks : p.Links j Model.Blog.integerKey (Model.Blog.integerColumn "article_id") :=
    ⟨⟨relationship, eq_ok_of_toOption hrelationship, hcolumns⟩, hnear, hfar⟩
  obtain ⟨hsame, hback⟩ := givesAll_replacing sample_wellFormed (s := Model.sample) sample_identifiers
    (r := ofRoot Model.Blog.article) (d := greatComments) (by decide +kernel) (by decide +kernel) hrel htype
    (eq_ok_of_toOption hp) (halias ▸ hj) hlinks hequates hboth (readsAfresh_of_uncached rfl)
  obtain ⟨items, hitems, hlength⟩ := fetchAll_listed (r := ofRoot Model.Blog.article) (d := greatComments)
    Model.sample Model.sampleRows List.length rfl rfl (v := 3) (by decide +kernel)
  have hcount : (run (ofRoot Model.Blog.article)
      (count Model.sample Model.sampleRows (.descriptor greatComments))).1 = .ok 3 := by
    rw [count_unsorted]
    exact eq_ok_of_toOption (by decide +kernel)
  exact ⟨o, items, 3, hlength, hrel, hitems, hsame.answer _ hitems, hcount, hsame.count _ hcount,
    hback (.inr (by simp [greatCommentsOfArticle]))⟩

end Repository
end EntityQuery
