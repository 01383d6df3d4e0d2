import EntityQuery.Proofs.Count
import EntityQuery.Proofs.EagerLoad
import EntityQuery.Proofs.SomeRows
import EntityQuery.Proofs.Unfold
/-!
Bounds and joins. Limit and offset cut the joined rows of a query, and a root stands in as many joined
rows as its joins find. So pages have the sizes that the total promises, and whole collections, exactly
if no root stands in two joined rows and each row alone brings the collections of its entities.
-/
namespace EntityQuery

/-- How many of `n` roots lie between bounds. -/
def boundedCount (limit offset : Option Nat) (n : Nat) : Nat :=
  match limit with
  | some m => min m (n - offset.getD 0)
  | none => n - offset.getD 0

theorem length_within {α : Type} (limit offset : Option Nat) (xs : List α) :
    (within limit offset xs).length = boundedCount limit offset xs.length := by
  unfold within boundedCount
  cases limit <;> simp

theorem within_sublist {α : Type} (limit offset : Option Nat) (xs : List α) :
    (within limit offset xs).Sublist xs := by
  unfold within
  cases limit with
  | none => exact List.drop_sublist _ _
  | some n => exact (List.take_sublist _ _).trans (List.drop_sublist _ _)

theorem within_one {α : Type} {xs : List α} {i : Nat} (hi : i < xs.length) :
    within (some 1) (some i) xs = [xs[i]] := by
  unfold within
  simp only [Option.getD_some]
  rw [List.drop_eq_getElem_cons hi]
  rfl

theorem nodup_of_length_eraseDups {α : Type} [BEq α] [LawfulBEq α] {xs : List α}
    (h : xs.length ≤ xs.eraseDups.length) : xs.Nodup := by
  have hsub := List.subperm_of_subset (nodup_eraseDups xs) fun _ h => List.mem_eraseDups.mp h
  exact (hsub.perm_of_length_le h).nodup_iff.mp (nodup_eraseDups xs)

theorem inCellRange_of_le {m n : Nat} (h : m ≤ n) (hn : inCellRange n = true) :
    inCellRange m = true := by
  unfold inCellRange at hn ⊢
  rw [decide_eq_true_eq] at hn ⊢
  omega

namespace Plan

variable {s : Schema} {db : Database} {p : Plan} {js : List ResolvedJoin}

/-- Whether the relationships of a name are collections, by the joins of a plan. -/
def joinKind (js : List ResolvedJoin) (family name : String) : Bool :=
  (js.find? fun j => j.source.entity.rootName == family && j.relationship.name == name).any
    (·.relationship.many)

/-- Joins that start in one family and follow one name follow one relationship. -/
theorem relationship_of_joins (hs : s.WellFormed) (hroot : p.root ∈ s.entities)
    (hst : Staged s p 0 js) {i j : ResolvedJoin} (hi : i ∈ js) (hj : j ∈ js)
    (hfamily : i.source.entity.rootName = j.source.entity.rootName)
    (hname : i.relationship.name = j.relationship.name) : i.relationship = j.relationship := by
  have hfit := fitting_of_root hs hroot hst
  have hsource : ∀ j ∈ js, j.source.entity = p.root ∨ j.source.entity.isFamilyHead = true := by
    intro j hj
    obtain ⟨⟨k, hk, hsource⟩, -⟩ := occurrences_of_staged hst j hj
    cases k with
    | zero => exact .inl (congrArg Occurrence.entity (Option.some.inj hsource)).symm
    | succ k =>
      obtain ⟨e, he, htarget⟩ := exists_join hst (Nat.succ_pos k) hk
      have hentity := congrArg Occurrence.entity (Option.some.inj (htarget.symm.trans hsource))
      exact .inr (hentity ▸ (hfit e he).head)
  rcases hsource i hi with h | h
  · rcases hsource j hj with h' | h'
    · exact relationship_of_name hs hroot (h ▸ (hfit i hi).relationship)
        (h' ▸ (hfit j hj).relationship) hname
    · have hin := (hs.inherited _ (hfit j hj).source _ (hfit i hi).source h' hfamily.symm).2
      exact relationship_of_name hs (hfit i hi).source (hfit i hi).relationship
        (hin _ (hfit j hj).relationship) hname
  · have hin := (hs.inherited _ (hfit i hi).source _ (hfit j hj).source h hfamily).2
    exact relationship_of_name hs (hfit j hj).source (hin _ (hfit i hi).relationship)
      (hfit j hj).relationship hname

theorem areOf_loadTree (hs : s.WellFormed) (hroot : p.root ∈ s.entities) (hst : Staged s p 0 js) :
    Edge.AreOf (joinKind js) (p.loadTree js).edges := by
  intro e he
  obtain ⟨j, hj, rfl⟩ := (mem_edges_loadTree hst e).mp he
  unfold joinKind
  cases hf : js.find? fun i => i.source.entity.rootName == j.edge.source.entity.rootName &&
      i.relationship.name == j.edge.relationship.name with
  | none => exact absurd (List.find?_eq_none.mp hf j hj) (by simp [ResolvedJoin.edge])
  | some i =>
    have hi := List.find?_some hf
    rw [Bool.and_eq_true, beq_iff_eq, beq_iff_eq] at hi
    have := relationship_of_joins hs hroot hst (List.mem_of_find?_eq_some hf) hj hi.1 hi.2
    rw [Option.any_some, this]
    rfl

/-- A root stands in one joined row at most, and each row alone brings the collections that all rows
bring. -/
structure RowPerRoot (s : Schema) (db : Database) (p : Plan) (js : List ResolvedJoin)
    (g : Graph) : Prop where
  once : ((p.matched db js).map p.rootKey).Nodup
  alone : ∀ row ∈ p.matched db js, ∀ h, (p.loadTree js).loadAll s {} [row] = .ok h →
    h.SharesCollections g

end Plan

namespace Repository

open Plan

variable {s : Schema} {db : Database} {r : Repository} {d : Descriptor}

/-- A fetch lists items, which are drawn from a graph. -/
structure Lists (s : Schema) (db : Database) (r : Repository) (d : Descriptor) (items : List Item)
    (g : Graph) : Prop where
  answer : (run r (fetchAll s db (.descriptor d))).1 = .ok (.plain (.list items))
  drawn : ∃ p o roots, planOf s r d = .ok p ∧ p.outline = .ok o ∧
    load s db p o = .ok (roots, g) ∧ hydrate db p d.hydration g roots = .ok items

/-- A fetch lists what a load of its plan gives. -/
theorem lists_of_load (hf : r.ReadsAfresh d) (hpage : d.countAvailableRows = false)
    {p : Plan} {o : Outline} {roots : List EntityKey} {g : Graph} {items : List Item}
    (hp : planOf s r d = .ok p) (ho : p.outline = .ok o) (hl : load s db p o = .ok (roots, g))
    (hindex : p.indexBy = none) (hh : hydrate db p d.hydration g roots = .ok items) :
    Lists s db r d items g := by
  refine ⟨?_, p, o, roots, hp, ho, hl, hh⟩
  have hread : readAll s db p d.hydration o = .ok (.list items) := by
    unfold readAll shape
    rw [hl]
    simp only [bind, Except.bind, hindex, hh]
    rfl
  obtain ⟨selection, hsel, -⟩ := load_eq_ok hl
  rw [run_fetchAll]
  unfold answerAll
  simp only [hp, ho, hread]
  rw [readThrough_of_fresh hf hsel]
  simp only [bind, Except.bind, hpage, Bool.false_eq_true, if_false]

/-- A fetch of a list is drawn from a graph. -/
theorem exists_lists (hf : r.ReadsAfresh d) (hpage : d.countAvailableRows = false)
    (hindex : d.indexBy = none) {a : Answer}
    (h : (run r (fetchAll s db (.descriptor d))).1 = .ok a) : ∃ items g, Lists s db r d items g := by
  obtain ⟨p, o, roots, g, fetched, hp, ho, hl, hshape, -⟩ := fetchAll_eq_ok hf h
  have hpindex := (build_frame hp).2.2.2.1.trans hindex
  obtain ⟨items, -, hitems⟩ := shape_eq_ok hpindex hshape
  exact ⟨items, g, lists_of_load hf hpage hp ho hl hpindex hitems⟩

/-- A query that loads all its matches loads those between storable bounds. -/
theorem exists_load_bounded {p : Plan} {o : Outline} (hst : p.Staged s 0 o.1)
    {out : List EntityKey × Graph} (h : load s db (p.bounded none none) o = .ok out)
    {limit offset : Option Nat} (hlimit : Storable limit) (hoffset : Storable offset) :
    ∃ out, load s db (p.bounded limit offset) o = .ok out := by
  have hrows := loadRows_of_load (staged_bounded none none hst) h
  obtain ⟨selection, hsel, hcheck, -⟩ := load_eq_ok h
  have hsel' : (p.bounded limit offset).assemble o.1 o.2 = .ok _ :=
    assemble_bounded (p := p.bounded none none) limit offset hsel
  cases assemble_eq_ok (staged_bounded none none hst) hsel
  have hcheck' := Select.check_bounded hlimit hoffset rfl rfl hcheck
  have hloads : ∀ row ∈ within limit offset (p.sorted db o.1 o.2),
      ∃ out, (p.loadTree o.1).load s row {} = .ok out := fun row hrow =>
    LoadTree.exists_load_of_loadAll (LoadTree.loadRows_eq_ok hrows).1 row (mem_within hrow)
  obtain ⟨out, hout⟩ := LoadTree.exists_loadRows hloads
  refine ⟨out, ?_⟩
  unfold load
  rw [hsel']
  simp only [bind, Except.bind, Select.run, hcheck', Except.map]
  unfold Select.rows
  rw [productRows_singleton]
  exact hout

theorem exists_hydrate (db : Database) {p : Plan} (hindex : p.collectionIndex = []) (h : Hydration)
    (g : Graph) (roots : List EntityKey) : ∃ items, hydrate db p h g roots = .ok items := by
  have hrecord : ∀ (u : Unfolding), u.index = [] → ∀ (g : Graph) (k : EntityKey),
      ∃ out, g.record u k = .ok out := fun u hu g k => exists_unfoldTo hu g.nodes.length [] [] g k
  cases h with
  | entities =>
    unfold hydrate
    induction roots with
    | nil => exact ⟨[], rfl⟩
    | cons k ks ih =>
      obtain ⟨⟨v, i⟩, hv⟩ := hrecord ⟨fun _ _ => none, []⟩ rfl g k
      obtain ⟨items, hitems⟩ := ih
      simp only at hitems
      refine ⟨.entity (((g.node? k).map fun n => n.entity.name).getD "") k v :: items, ?_⟩
      simp only [List.mapM_cons, entityItem, hv, hitems]
      rfl
  | records =>
    obtain ⟨⟨vs, i⟩, hvs⟩ := exists_unfoldItems (hrecord (unfolding db p) hindex) g roots
    exact ⟨vs.map .record, by unfold hydrate; simp only [hvs]; rfl⟩

/-- The items of a fetch between bounds are drawn from the plan between these bounds. -/
theorem Lists.drawn_bounded {p : Plan} {o : Outline} (hp : planOf s r d = .ok p)
    (ho : p.outline = .ok o) {limit offset : Option Nat} {items : List Item} {g : Graph}
    (h : Lists s db r (d.bounded limit offset) items g) :
    ∃ roots, load s db (p.bounded limit offset) o = .ok (roots, g) ∧
      hydrate db (p.bounded limit offset) d.hydration g roots = .ok items := by
  obtain ⟨q, o', roots, hq, ho', hl, hh⟩ := h.drawn
  cases hq.symm.trans (build_bounded limit offset hp)
  rw [outline_bounded, ho] at ho'
  cases ho'
  exact ⟨roots, hl, hh⟩

/-- The items of a fetch between bounds are as many as the rows between them have distinct roots. -/
theorem Lists.bounded_eq_ok (hs : s.WellFormed) (hdb : db.Sound s)
    (hroot : r.builder.root ∈ s.entities) (hd : d.DistinctAliases r.builder.root) {p : Plan}
    {o : Outline} (hp : planOf s r d = .ok p) (ho : p.outline = .ok o) {limit offset : Option Nat}
    {items : List Item} {g : Graph} (h : Lists s db r (d.bounded limit offset) items g) :
    items.length = ((within limit offset (p.sorted db o.1 o.2)).map p.rootKey).eraseDups.length ∧
      (p.loadTree o.1).loadAll s {} (within limit offset (p.sorted db o.1 o.2)) = .ok g := by
  obtain ⟨roots, hl, hh⟩ := h.drawn_bounded hp ho
  have hst := staged_bounded limit offset
    (resolveJoins_eq_ok (layout_build hd hp) (outline_eq_ok ho).1).1
  have hmem : (p.bounded limit offset).root ∈ s.entities := by
    rw [show (p.bounded limit offset).root = p.root from rfl, (build_frame hp).1]
    exact hroot
  refine ⟨?_, (LoadTree.loadRows_eq_ok (loadRows_of_load hst hl)).1⟩
  rw [hydrate_length hh, load_roots hs hdb hmem hst hl]
  rfl

/-- Where the pages of a query have the sizes that its total promises, and the collections of the whole
query, each root stands in one row at most, and each row alone brings the collections. -/
theorem rowPerRoot_of_lists (hs : s.WellFormed) (hdb : db.Sound s)
    (hroot : r.builder.root ∈ s.entities) (hd : d.DistinctAliases r.builder.root) {p : Plan}
    {o : Outline} (hp : planOf s r d = .ok p) (ho : p.outline = .ok o) {n : Nat}
    (hroots : n = ((p.matched db o.1).map p.rootKey).eraseDups.length) (hn : inCellRange n = true)
    {g : Graph} (h : ∀ limit offset, Storable limit → Storable offset →
      ∃ items h, Lists s db r (d.bounded limit offset) items h ∧
        items.length = boundedCount limit offset n ∧ h.SharesCollections g) :
    p.RowPerRoot s db o.1 g := by
  have hperm : ((p.sorted db o.1 o.2).map p.rootKey).Perm ((p.matched db o.1).map p.rootKey) :=
    (List.mergeSort_perm _ _).map _
  -- behind as many rows as there are roots no row is left
  have hrows : (p.sorted db o.1 o.2).length ≤ n := by
    obtain ⟨items, i, hlists, hlength, -⟩ := h none (some n) nofun fun m hm => by
      cases hm
      exact hn
    rw [(hlists.bounded_eq_ok hs hdb hroot hd hp ho).1,
      show boundedCount none (some n) n = 0 from Nat.sub_self n] at hlength
    have hnil : ((within none (some n) (p.sorted db o.1 o.2)).map p.rootKey) = [] := by
      rw [List.eq_nil_iff_forall_not_mem]
      intro k hk
      have := List.length_pos_of_mem (List.mem_eraseDups.mpr hk)
      omega
    have hlength' := length_within none (some n) (p.sorted db o.1 o.2)
    rw [List.map_eq_nil_iff.mp hnil] at hlength'
    exact Nat.sub_eq_zero_iff_le.mp hlength'.symm
  constructor
  · refine hperm.nodup_iff.mp (nodup_of_length_eraseDups ?_)
    rw [List.length_map, length_eraseDups_sorted, ← hroots]
    exact hrows
  · intro row hrow i hi
    have hsorted : row ∈ p.sorted db o.1 o.2 := mem_sorted.mpr hrow
    obtain ⟨k, hk, hrowk⟩ := List.getElem_of_mem hsorted
    obtain ⟨items, i', hlists, -, hshares⟩ := h (some 1) (some k) (fun m hm => by cases hm; rfl)
      fun m hm => by
        cases hm
        exact inCellRange_of_le (Nat.le_of_lt (Nat.lt_of_lt_of_le hk hrows)) hn
    have hload := (hlists.bounded_eq_ok hs hdb hroot hd hp ho).2
    rw [within_one hk, hrowk, hi] at hload
    cases hload
    exact hshares

/-- Where each root stands in one row at most, and each row alone brings the collections, all pages of
a query have the sizes that its total promises, and the collections of the whole query. -/
theorem lists_of_rowPerRoot (hs : s.WellFormed) (hdb : db.Sound s)
    (hroot : r.builder.root ∈ s.entities) (hd : d.DistinctAliases r.builder.root)
    (hf : r.ReadsAfresh d) (hindexed : ∀ e ∈ d.relations.entries, e.2.indexBy = none) {p : Plan}
    {o : Outline} (hp : planOf s r d = .ok p) (ho : p.outline = .ok o) {all : List Item} {g : Graph}
    (hall : Lists s db r d.unbounded all g) (hone : p.RowPerRoot s db o.1 g)
    {limit offset : Option Nat} (hlimit : Storable limit) (hoffset : Storable offset) :
    ∃ items h, Lists s db r (d.bounded limit offset) items h ∧
      items.length = boundedCount limit offset
        ((p.matched db o.1).map p.rootKey).eraseDups.length ∧ h.SharesCollections g := by
  obtain ⟨roots, hl, -⟩ := hall.drawn_bounded hp ho
  have hst := (resolveJoins_eq_ok (layout_build hd hp) (outline_eq_ok ho).1).1
  have hmem : p.root ∈ s.entities := by
    rw [(build_frame hp).1]
    exact hroot
  obtain ⟨⟨roots', h⟩, hload⟩ := exists_load_bounded hst hl hlimit hoffset
  have hpb : planOf s r (d.bounded limit offset) = .ok (p.bounded limit offset) :=
    build_bounded limit offset hp
  obtain ⟨items, hitems⟩ := exists_hydrate db (collectionIndex_build hpb hindexed) d.hydration h
    roots'
  have hlists : Lists s db r (d.bounded limit offset) items h :=
    lists_of_load (d := d.bounded limit offset) hf rfl hpb ((outline_bounded limit offset p).trans ho)
      hload rfl hitems
  obtain ⟨hlength, hrows⟩ := hlists.bounded_eq_ok hs hdb hroot hd hp ho
  have hnodup : ((p.sorted db o.1 o.2).map p.rootKey).Nodup :=
    ((List.mergeSort_perm _ _).map _).nodup_iff.mpr hone.once
  refine ⟨items, h, hlists, ?_, ?_⟩
  · have hsame : ((p.sorted db o.1 o.2).map p.rootKey).eraseDups.length =
        ((p.matched db o.1).map p.rootKey).eraseDups.length := length_eraseDups_sorted _
    rw [hlength, ← hsame, eraseDups_eq_self hnodup,
      eraseDups_eq_self (((within_sublist limit offset _).map _).nodup hnodup), List.length_map,
      List.length_map, length_within]
  · exact LoadTree.sharesCollections_of_rows (areOf_loadTree hs hmem hst)
      (within_sublist limit offset _) hrows (hall.bounded_eq_ok hs hdb hroot hd hp ho).2
      fun row hrow => hone.alone row (mem_sorted.mp (mem_within hrow))

/-- Limit and offset count roots and leave collections whole, for all storable bounds, exactly if no
root stands in two joined rows and each row alone brings the collections of its entities. -/
theorem fetchAll_bounded_iff (hs : s.WellFormed) (hdb : db.Sound s)
    (hroot : r.builder.root ∈ s.entities) (hd : d.DistinctAliases r.builder.root)
    (hf : r.ReadsAfresh d) (hindexed : ∀ e ∈ d.relations.entries, e.2.indexBy = none) {n : Nat}
    (hcount : (run r (count s db (.descriptor d))).1 = .ok n) (hn : inCellRange n = true)
    {all : List Item} {g : Graph} (hall : Lists s db r d.unbounded all g) :
    (∀ limit offset, Storable limit → Storable offset →
      ∃ items h, Lists s db r (d.bounded limit offset) items h ∧
        items.length = boundedCount limit offset n ∧ h.SharesCollections g) ↔
    ∃ p js, planOf s r d = .ok p ∧ p.resolveJoins = .ok js ∧ p.RowPerRoot s db js g := by
  obtain ⟨p, js, hp, hj, -, hcounted⟩ := count_matched hd hcount
  obtain ⟨q, o, -, hq, ho, -⟩ := hall.drawn
  cases hq.symm.trans (build_bounded none none hp)
  rw [outline_bounded] at ho
  cases hj.symm.trans (outline_eq_ok ho).1
  constructor
  · exact fun h => ⟨p, o.1, hp, hj, rowPerRoot_of_lists hs hdb hroot hd hp ho hcounted hn h⟩
  · rintro ⟨p', js', hp', hj', hone⟩ limit offset hlimit hoffset
    cases hp.symm.trans hp'
    cases hj.symm.trans hj'
    rw [hcounted]
    exact lists_of_rowPerRoot hs hdb hroot hd hf hindexed hp ho hall hone hlimit hoffset

/-- Articles with their comments. -/
def commentedArticles : Descriptor where
  relations := .ofList [("comments", {})]

theorem count_commentedArticles :
    (run (ofRoot Model.Blog.article)
      (count Model.sample Model.sampleRows (.descriptor commentedArticles))).1 = .ok 3 := by
  rw [count_unsorted]
  exact eq_ok_of_toOption (by decide +kernel)

theorem bounded_commentedArticles :
    ∃ all g, Lists Model.sample Model.sampleRows (ofRoot Model.Blog.article)
        commentedArticles.unbounded all g ∧
      ¬ ∀ limit offset, Storable limit → Storable offset →
        ∃ items h, Lists Model.sample Model.sampleRows (ofRoot Model.Blog.article)
            (commentedArticles.bounded limit offset) items h ∧
          items.length = boundedCount limit offset 3 ∧ h.SharesCollections g := by
  have hread : (readUnsorted Model.sample Model.sampleRows (ofRoot Model.Blog.article)
      commentedArticles.unbounded).toOption.isSome = true := by decide +kernel
  obtain ⟨fetched, hfetched⟩ := exists_ok_of_toOption hread
  have hrun : (run (ofRoot Model.Blog.article)
      (fetchAll Model.sample Model.sampleRows (.descriptor commentedArticles.unbounded))).1 =
        .ok (.plain fetched) := by
    rw [fetchAll_unsorted _ _ _ rfl rfl rfl, hfetched]
    rfl
  obtain ⟨all, g, hall⟩ := exists_lists (readsAfresh_of_uncached rfl) rfl rfl hrun
  refine ⟨all, g, hall, fun h => ?_⟩
  obtain ⟨p, js, hp, hj, hone⟩ := (fetchAll_bounded_iff sample_wellFormed sampleRows_sound
    (by decide) (by decide +kernel) (readsAfresh_of_uncached rfl) (by decide +kernel)
    count_commentedArticles (by decide) hall).mp h
  have htwice : ((planOf Model.sample (ofRoot Model.Blog.article) commentedArticles >>= fun p =>
      p.resolveJoins.map fun js =>
        decide ((p.matched Model.sampleRows js).map p.rootKey).Nodup).toOption) = some false := by
    decide +kernel
  rw [hp] at htwice
  simp only [bind, Except.bind, hj, Except.map, Except.toOption, Option.some.injEq,
    decide_eq_false_iff_not] at htwice
  exact htwice hone.once

/-- How many items a fetched list has. -/
def listed : Fetched → Option Nat
  | .list items => some items.length
  | _ => none

/-- The first two of three articles are asked for, and one is given: it stands in the first two joined
rows, with one of its comments in each. -/
theorem fetchAll_two_commentedArticles :
    (run (ofRoot Model.Blog.article)
        (count Model.sample Model.sampleRows (.descriptor commentedArticles))).1 = .ok 3 ∧
      boundedCount (some 2) none 3 = 2 ∧
      ∃ items, (run (ofRoot Model.Blog.article) (fetchAll Model.sample Model.sampleRows
          (.descriptor (commentedArticles.bounded (some 2) none)))).1 = .ok (.plain (.list items)) ∧
        items.length = 1 := by
  refine ⟨count_commentedArticles, rfl, ?_⟩
  have hread : (readUnsorted Model.sample Model.sampleRows (ofRoot Model.Blog.article)
      (commentedArticles.bounded (some 2) none)).toOption.bind listed = some 1 := by decide +kernel
  obtain ⟨fetched, hfetched, hlength⟩ := Option.bind_eq_some_iff.mp hread
  cases fetched with
  | list items =>
    refine ⟨items, ?_, Option.some.inj hlength⟩
    rw [fetchAll_unsorted _ _ _ rfl rfl rfl, eq_ok_of_toOption hfetched]
    rfl
  | single item => cases hlength
  | indexed entries => cases hlength

end Repository
end EntityQuery
