import EntityQuery.Proofs.Bounds
import EntityQuery.Proofs.Records
import EntityQuery.Proofs.Unsorted
/-!
Eager loading is complete and exact. A fetch whose relations are all eager answers with one record for
each row of the root that satisfies the conditions; along the joined paths the record shows exactly
the related rows.
-/
namespace EntityQuery

/-- Relations that keep rows without a match, have no condition and are not indexed. -/
def RelationOptions.Eager (o : RelationOptions) : Prop :=
  o.joinType = .left ∧ o.condition = .null ∧ o.indexBy = none

/-- All relations of a query are eager. -/
def Descriptor.Eager (d : Descriptor) : Prop := ∀ e ∈ d.relations.entries, e.2.Eager

/-- The joins that the relations of a query ask for: the alias of the source, the relationship that is
followed, and the alias of the target. -/
def Descriptor.steps (root : Entity) (d : Descriptor) : List (String × String × String) :=
  d.relations.entries.map fun e =>
    (((Plan.ofRoot root).splitRelation e.1).1, ((Plan.ofRoot root).splitRelation e.1).2,
      Plan.joinAlias e.1 e.2)

/-- The items of an answer, as a page or not. -/
def Answer.fetched : Answer → Fetched
  | .plain items => items
  | .page p => p.items

/-- The record of an item. -/
def Item.data : Item → Value
  | .record v => v
  | .entity _ _ data => data

namespace Plan

variable {s : Schema} {db : Database} {p : Plan} {js : List ResolvedJoin}

def ResolvedJoin.step (j : ResolvedJoin) : String × String × String :=
  (j.source.aliasName, j.relationship.name, j.target.aliasName)

/-- The rows of the root that satisfy the conditions of a plan on the root. -/
def rootMatches (db : Database) (p : Plan) : List Row :=
  (p.rootRows db).filter fun r => p.conditions.all (·.holds [(.entity 0, r)])

/-- An answer has one item for each row of the root that satisfies the conditions, and the item shows
exactly the related rows along all joins. -/
def ShownBy (db : Database) (p : Plan) (js : List ResolvedJoin) (a : Answer) : Prop :=
  ∃ items rs, a.fetched = .list items ∧ rs.Nodup ∧ (∀ r, r ∈ rs ↔ r ∈ p.rootMatches db) ∧
    List.Forall₂ (fun r item => Shows db js (rootOccurrence p.root) [] r item.data) rs items

theorem rootKey_of_rowAt {row : JoinedRow} {r : Row} (h : row.rowAt 0 = some r) :
    p.rootKey row = p.root.keyOf r := by
  have hget : ∀ c, row.get ⟨.entity 0, p.rootAlias, c⟩ = r.get c.name := fun c => by
    unfold JoinedRow.get
    rw [show List.lookup (Owner.entity 0) row = some r from h]
    rfl
  unfold rootKey Entity.keyOf
  simp only [hget]

/-- The rows of the root that joins which keep it reach are all its rows. -/
theorem reached_joined (houter : ∀ j ∈ js, j.outer = true) {r : Row} :
    Reached ((p.joined js).rows db) 0 r ↔ r ∈ p.rootRows db := by
  constructor
  · rintro ⟨row, hrow, hat⟩
    obtain ⟨a, ha, rest, rfl⟩ := mem_rows_joined hrow
    cases (JoinedRow.rowAt_entity 0 a rest).symm.trans hat
    exact ha
  · intro hr
    obtain ⟨rest, hrow⟩ := exists_joined houter hr
    exact ⟨_, hrow, JoinedRow.rowAt_entity 0 r rest⟩

/-- Where all conditions are on the root, the rows of the root in the matches are those that the joins
reach and that satisfy the conditions. -/
theorem reached_matched (hconditions : ∀ q ∈ p.conditions, OnRoot q) {r : Row} :
    Reached (p.matched db js) 0 r ↔ Reached ((p.joined js).rows db) 0 r ∧
      ∀ q ∈ p.conditions, q.holds [(.entity 0, r)] = true := by
  have hholds : ∀ {row : JoinedRow}, row.rowAt 0 = some r → ∀ q ∈ p.conditions,
      q.holds row = q.holds [(.entity 0, r)] := fun {row} hrow q hq =>
    holds_onRoot (hconditions q hq) (show List.lookup (.entity 0) row = some r from hrow)
  constructor
  · rintro ⟨row, hrow, hat⟩
    obtain ⟨hjoined, hall⟩ := List.mem_filter.mp hrow
    exact ⟨⟨row, hjoined, hat⟩, fun q hq => hholds hat q hq ▸ List.all_eq_true.mp hall q hq⟩
  · rintro ⟨⟨row, hjoined, hat⟩, hall⟩
    refine ⟨row, List.mem_filter.mpr ⟨hjoined, List.all_eq_true.mpr fun q hq => ?_⟩, hat⟩
    rw [hholds hat q hq]
    exact hall q hq

/-- Where all conditions are on the root and all joins keep it, the rows of the root that match are
those that satisfy the conditions. -/
theorem mem_rootMatches (hconditions : ∀ q ∈ p.conditions, OnRoot q)
    (houter : ∀ j ∈ js, j.outer = true) {r : Row} :
    r ∈ p.rootMatches db ↔ Reached (p.matched db js) 0 r := by
  rw [reached_matched hconditions, reached_joined houter, rootMatches, List.mem_filter,
    List.all_eq_true]

/-- The joins of an eager query are eager. -/
theorem eagerJoins_of_asked {root : Entity} {entries : List (String × RelationOptions)}
    {clauses : List JoinClause} (heager : ∀ e ∈ entries, e.2.Eager)
    (hasked : List.Forall₂ (Asked root) entries clauses)
    (hfollows : List.Forall₂ Follows clauses js) : ∀ j ∈ js, j.Eager := by
  intro j hj
  obtain ⟨e, he, c, hc, -, -, hpred, houter, -⟩ := exists_asked hasked hfollows j hj
  obtain ⟨hleft, hnull, -⟩ := heager e he
  constructor
  · rw [JoinClause.predicate, hc.condition hnull] at hpred
    exact (Except.ok.inj hpred).symm
  · rw [houter, hc.joinType, hleft]
    rfl

/-- The joins of a plan are the steps that its descriptor asks for. -/
theorem steps_of_asked {root : Entity} (hp : p.Layout s) {place : Nat} {clauses : List JoinClause}
    {entries : List (String × RelationOptions)} (hclauses : p.joins.drop place = clauses)
    (hr : p.resolveJoinsFrom place clauses = .ok js)
    (hasked : List.Forall₂ (Asked root) entries clauses) :
    js.map ResolvedJoin.step = entries.map fun e =>
      (((ofRoot root).splitRelation e.1).1, ((ofRoot root).splitRelation e.1).2,
        joinAlias e.1 e.2) := by
  induction hasked generalizing place js with
  | nil =>
    cases hr
    rfl
  | @cons e c entries clauses hc _ ih =>
    have hat : p.joins[place]? = some c := by
      rw [← List.head?_drop, hclauses]
      rfl
    obtain ⟨j, hj, hr⟩ := ok_of_bind hr
    obtain ⟨rest, hrest, hr⟩ := ok_of_bind hr
    cases hr
    have hdrop : p.joins.drop (place + 1) = clauses := by
      rw [← List.drop_drop, hclauses]
      rfl
    obtain ⟨k, -, o, rel, ho, hoa, -, -⟩ := hp.source place c hat
    obtain ⟨-, htarget, -, -, hname, -⟩ := hp.sourced.resolveJoin hat hj
    have hsource : j.source.aliasName = c.sourceAlias := by
      unfold resolveJoin at hj
      obtain ⟨rel', -, hj⟩ := ok_of_bind hj
      obtain ⟨pred, -, hj⟩ := ok_of_bind hj
      cases hj
      unfold Plan.source
      rw [← hoa, occurrence?_name hp ho]
      rfl
    have hstep : j.step = (((ofRoot root).splitRelation e.1).1,
        ((ofRoot root).splitRelation e.1).2, joinAlias e.1 e.2) := by
      unfold ResolvedJoin.step
      rw [hsource, hname, htarget, ← hc.path, ← hc.aliasName]
      rfl
    rw [List.map_cons, List.map_cons, hstep, ih hdrop hrest]

end Plan

namespace Repository

open Plan

variable {s : Schema} {db : Database} {p : Plan} {js : List ResolvedJoin} {rows : List JoinedRow}
  {g : Graph}

/-- The items of loaded roots show the rows of these roots. -/
theorem hydrate_shows (hs : s.WellFormed) (hdb : db.Sound s) (hst : Staged s p 0 js)
    (he : EagerJoins s js) (hg : Loaded s db p js rows g) (hindex : p.collectionIndex = [])
    {h : Hydration} {rs : List Row} (hrs : ∀ r ∈ rs, Reached rows 0 r) {items : List Item}
    (hh : hydrate db p h g (rs.map p.root.keyOf) = .ok items) :
    List.Forall₂ (fun r item => Shows db js (rootOccurrence p.root) [] r item.data) rs items := by
  have hrecord : ∀ (u : Unfolding), u.index = [] → ∀ r ∈ rs, ∀ v h,
      g.record u (p.root.keyOf r) = .ok (v, h) →
        Shows db js (rootOccurrence p.root) [] r v := by
    intro u hu r hr v h hv
    refine unfoldTo_shows hs hdb hst he hg hu g.nodes.length (fun _ h => h) (Nat.zero_le _) rfl
      (hrs r hr) (List.nodup_singleton _) (fun x hx => ?_) (by simp) hv
    rw [List.mem_singleton.mp hx]
    exact hg.has_root r (hrs r hr)
  cases h with
  | entities =>
    have hall := mapM_eq_ok_iff.mp hh
    rw [List.forall₂_map_left_iff] at hall
    refine ((List.forall₂_and_left _ _).mpr ⟨fun r hr => hr, hall⟩).imp fun r item h => ?_
    obtain ⟨⟨v, i⟩, hv, rfl⟩ := ok_of_map h.2
    exact hrecord _ rfl r h.1 v i hv
  | records =>
    obtain ⟨⟨vs, i⟩, hvs, rfl⟩ := ok_of_map hh
    have hsilent : Silent fun g k => g.record (unfolding db p) k := fun g k v h hv =>
      unfoldTo_silent hindex _ _ _ g k v h hv
    have hall := (unfoldItems_eq_ok hsilent hvs).2
    rw [List.forall₂_map_left_iff] at hall
    rw [List.forall₂_map_right_iff]
    exact ((List.forall₂_and_left _ _).mpr ⟨fun r hr => hr, hall⟩).imp fun r v h =>
      hrecord _ hindex r h.1 v _ h.2

/-- The items of a load of whole rows show the rows of the roots that it loads. -/
theorem load_shows (hs : s.WellFormed) (hdb : db.Sound s) (hroot : p.root ∈ s.entities)
    {o : Outline} (hst : Staged s p 0 o.1) (he : EagerJoins s o.1) (hindex : p.collectionIndex = [])
    (hw : Whole db p o.1 (within p.limit p.offset (p.sorted db o.1 o.2)))
    {roots : List EntityKey} (hl : load s db p o = .ok (roots, g)) {h : Hydration}
    {items : List Item} (hh : hydrate db p h g roots = .ok items) :
    ∃ rs : List Row, rs.map p.root.keyOf = roots ∧ rs.Nodup ∧
      (∀ r ∈ rs, Reached (within p.limit p.offset (p.sorted db o.1 o.2)) 0 r) ∧
      List.Forall₂ (fun r item => Shows db o.1 (rootOccurrence p.root) [] r item.data) rs items := by
  have hroots := load_roots hs hdb hroot hst hl
  have hloaded := loaded_of_whole hs hdb hroot hst he hw (loadRows_of_load hst hl)
  have hkeys : ∀ k ∈ roots, ∃ a, Reached (within p.limit p.offset (p.sorted db o.1 o.2)) 0 a ∧
      k = p.root.keyOf a := by
    intro k hk
    rw [hroots, List.mem_eraseDups] at hk
    obtain ⟨row, hrow, rfl⟩ := List.mem_map.mp hk
    obtain ⟨a, -, rest, rfl⟩ := mem_rows_joined (mem_joined_of_matched (hw.matched row hrow))
    exact ⟨a, ⟨_, hrow, JoinedRow.rowAt_entity 0 a rest⟩,
      rootKey_of_rowAt (JoinedRow.rowAt_entity 0 a rest)⟩
  obtain ⟨rs, hrs, hreached⟩ := exists_rows_of_keys hkeys
  rw [← hrs] at hh
  refine ⟨rs, hrs, List.Nodup.of_map p.root.keyOf ?_, hreached,
    hydrate_shows hs hdb hst he hloaded hindex hreached hh⟩
  rw [hrs, hroots]
  exact nodup_eraseDups _

variable {r : Repository} {d : Descriptor}

/-- A fetch whose relations are eager answers with the rows of the root that satisfy the conditions,
each once, and its items show exactly the related rows along all joins. -/
theorem fetchAll_shows_related (hs : s.WellFormed) (hdb : db.Sound s)
    (hroot : r.builder.root ∈ s.entities) (hd : d.DistinctAliases r.builder.root)
    (hf : r.ReadsAfresh d) (heager : d.Eager) (hfilters : d.FiltersRoot r.builder.root)
    (hlimit : d.limit = none) (hoffset : d.offset = none) (hindex : d.indexBy = none) {a : Answer}
    (h : (run r (fetchAll s db (.descriptor d))).1 = .ok a) :
    ∃ p js, planOf s r d = .ok p ∧ p.resolveJoins = .ok js ∧
      js.map ResolvedJoin.step = d.steps r.builder.root ∧ p.ShownBy db js a := by
  obtain ⟨p, o, roots, g, fetched, hp, ho, hload, hshape, hend⟩ := fetchAll_eq_ok hf h
  obtain ⟨hproot, hplimit, hpoffset, hpindex, -⟩ := build_frame hp
  have hlay := layout_build hd hp
  have hmem : p.root ∈ s.entities := by
    rw [hproot]
    exact hroot
  have hj := (outline_eq_ok ho).1
  obtain ⟨hst, hfollows⟩ := resolveJoins_eq_ok hlay hj
  have hasked := build_joins hp
  have he : EagerJoins s o.1 := fun j hj =>
    ⟨eagerJoins_of_asked heager hasked hfollows j hj, fitting_of_root hs hmem hst j hj⟩
  have hconditions := conditions_onRoot hd hfilters hp
  have hall : within p.limit p.offset (p.sorted db o.1 o.2) = p.sorted db o.1 o.2 := by
    rw [hplimit, hpoffset, hlimit, hoffset]
    rfl
  have hw : Whole db p o.1 (within p.limit p.offset (p.sorted db o.1 o.2)) := by
    rw [hall]
    exact whole_of_onRoot hconditions fun _ => mem_sorted
  obtain ⟨items, rfl, hitems⟩ := shape_eq_ok (hpindex.trans hindex) hshape
  have hkeyed := collectionIndex_build hp fun e he => (heager e he).2.2
  have hroots := load_roots hs hdb hmem hst hload
  obtain ⟨rs, hrs, hnodup, hreached, hshows⟩ := load_shows hs hdb hmem hst he hkeyed hw hload hitems
  rw [hall] at hroots hreached
  refine ⟨p, o.1, hp, hj, steps_of_asked hlay List.drop_zero hj hasked, items, rs, ?_, hnodup,
    fun x => ?_, hshows⟩
  · rcases hend with ⟨-, rfl⟩ | ⟨-, total, -, rfl⟩ <;> rfl
  · rw [mem_rootMatches hconditions fun j hj => (he j hj).1.2]
    constructor
    · intro hx
      obtain ⟨row, hrow, hat⟩ := hreached x hx
      exact ⟨row, mem_sorted.mp hrow, hat⟩
    · rintro ⟨row, hrow, hat⟩
      have hkey : p.root.keyOf x ∈ rs.map p.root.keyOf := by
        rw [hrs, hroots, List.mem_eraseDups]
        exact List.mem_map.mpr ⟨row, mem_sorted.mpr hrow, rootKey_of_rowAt hat⟩
      obtain ⟨z, hz, hzx⟩ := List.mem_map.mp hkey
      obtain ⟨other, hother, hzat⟩ := hreached z hz
      have hstored := fun {row y} (h : row ∈ p.matched db o.1) =>
        (holdsAt_root hs hdb hmem h).stored y
      have := row_of_keyOf hs hdb hmem hmem (hstored (mem_sorted.mp hother) hzat)
        (hstored hrow hat) hzx
      exact this.1 ▸ hz

/-- Records of the first products with their tags, the products of these, and order lines. -/
def taggedProducts : Descriptor where
  parameters := .ofList [("id:lt", .integer 4)]
  relations := .ofList
    [("tags", {}), ("tags.products", { joinAlias := some "same" }), ("lines", {})]
  hydration := .records

theorem fetchAll_shows_taggedProducts :
    ∃ a p js, (run (ofRoot Model.Shop.product)
        (fetchAll Model.sample Model.sampleRows (.descriptor taggedProducts))).1 = .ok a ∧
      planOf Model.sample (ofRoot Model.Shop.product) taggedProducts = .ok p ∧
      p.resolveJoins = .ok js ∧
      js.map ResolvedJoin.step =
        [("product", "tags", "tags"), ("tags", "products", "same"), ("product", "lines", "lines")] ∧
      p.ShownBy Model.sampleRows js a := by
  have hread : (readUnsorted Model.sample Model.sampleRows (ofRoot Model.Shop.product)
      taggedProducts).toOption.isSome = true := by decide +kernel
  obtain ⟨fetched, hfetched⟩ := exists_ok_of_toOption hread
  have hrun : (run (ofRoot Model.Shop.product)
      (fetchAll Model.sample Model.sampleRows (.descriptor taggedProducts))).1 =
        .ok (.plain fetched) := by
    rw [fetchAll_unsorted _ _ _ rfl rfl rfl, hfetched]
    rfl
  have heager : taggedProducts.Eager := by
    intro e he
    have hentries : taggedProducts.relations.entries =
      [("tags", {}), ("tags.products", { joinAlias := some "same" }), ("lines", {})] := rfl
    rw [hentries] at he
    rcases List.mem_cons.mp he with rfl | he
    · exact ⟨rfl, rfl, rfl⟩
    rcases List.mem_cons.mp he with rfl | he
    · exact ⟨rfl, rfl, rfl⟩
    · cases List.mem_singleton.mp he
      exact ⟨rfl, rfl, rfl⟩
  obtain ⟨p, js, hp, hj, hsteps, hshown⟩ := fetchAll_shows_related sample_wellFormed
    sampleRows_sound (by decide) (by decide +kernel) (readsAfresh_of_uncached rfl) heager
    (by decide +kernel) rfl rfl rfl hrun
  exact ⟨_, p, js, hrun, hp, hj, hsteps.trans (by decide +kernel), hshown⟩

end Repository
end EntityQuery
