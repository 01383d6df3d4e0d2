import EntityQuery.Proofs.EagerFetch
import EntityQuery.Proofs.StoredNodes
/-!
Items stand for rows. A fetch of a list gives one item for each distinct row of the root among the
matches between its bounds, in the order of the matches. The item shows the key of this row, whatever
is joined and however collections are keyed.
-/
namespace EntityQuery

/-- Passing on a graph that keeps all entities and their fields. -/
def Keeping {α β : Type} (f : Graph → α → Except QueryError (β × Graph)) : Prop :=
  ∀ g a b h, f g a = .ok (b, h) → g.Keeps h

variable {u : Unfolding} {record : Graph → EntityKey → Unfolded} {g h : Graph}

/-- A field that is not loaded is kept once it is read. -/
theorem keeping_readField (read : FieldReader) (field : String) :
    Keeping fun g k => g.readField read k field := by
  intro g k v h hr
  dsimp only at hr
  unfold Graph.readField at hr
  split at hr
  · cases hr
    exact .refl _
  · rename_i n hn
    split at hr
    · cases hr
      exact .refl _
    · rename_i hnone
      split at hr
      · cases hr
      · split at hr
        · cases hr
          refine Graph.keeps_modify (fun _ => rfl) (fun _ => rfl) fun m hm other w hw => ?_
          cases hn.symm.trans hm
          have hne : other ≠ field := fun e => by
            rw [e, hnone] at hw
            cases hw
          unfold Node.setColumn Node.column?
          rw [List.lookup_append, lookup_filter_ne hne, show List.lookup other n.columns = some w
            from hw]
          rfl
        · cases hr
          exact .refl _

theorem keeping_unfoldItems (hrecord : Keeping record) : Keeping (unfoldItems record) := by
  intro g ks vs h hu
  induction ks generalizing g vs with
  | nil =>
    cases hu
    exact .refl _
  | cons k ks ih =>
    obtain ⟨⟨v, i⟩, hv, hu⟩ := ok_of_bind hu
    obtain ⟨⟨ws, j⟩, hws, hu⟩ := ok_of_bind hu
    cases hu
    exact (hrecord g k v i hv).trans (ih i ws hws)

theorem keeping_unfoldKeyed (hrecord : Keeping record) (read : FieldReader) (field : String) :
    Keeping (unfoldKeyed read field record) := by
  intro g ks es h hu
  induction ks generalizing g es with
  | nil =>
    cases hu
    exact .refl _
  | cons k ks ih =>
    obtain ⟨⟨key, i⟩, hkey, hu⟩ := ok_of_bind hu
    obtain ⟨⟨v, j⟩, hv, hu⟩ := ok_of_bind hu
    obtain ⟨⟨fs, l⟩, hfs, hu⟩ := ok_of_bind hu
    cases hu
    exact ((keeping_readField read field g k key i hkey).trans (hrecord i k v j hv)).trans
      (ih j fs hfs)

theorem keeping_unfoldReference (hrecord : Keeping record) (way : List EntityKey)
    (path : Plan.RelationPath) : Keeping (unfoldReference u way path record) := by
  intro g reference o h hu
  unfold unfoldReference at hu
  split at hu
  · cases hu
    exact .refl _
  · split at hu
    · cases hu
      exact .refl _
    · obtain ⟨⟨v, i⟩, hv, he⟩ := ok_of_map hu
      cases he
      exact hrecord _ _ _ _ hv
  · dsimp only at hu
    split at hu
    · obtain ⟨⟨vs, i⟩, hvs, he⟩ := ok_of_map hu
      cases he
      exact keeping_unfoldItems hrecord _ _ _ _ hvs
    · obtain ⟨⟨es, i⟩, hes, he⟩ := ok_of_map hu
      cases he
      exact keeping_unfoldKeyed hrecord u.read _ _ _ _ _ hes

theorem keeping_unfoldReferences
    {unfold : Plan.RelationPath → Graph → Reference → Except QueryError (Option Value × Graph)}
    (hunfold : ∀ path, Keeping (unfold path)) (path : Plan.RelationPath) (n : Node) :
    Keeping (unfoldReferences unfold path n) := by
  intro g rs es h hu
  induction rs generalizing g es with
  | nil =>
    cases hu
    exact .refl _
  | cons r rs ih =>
    unfold unfoldReferences at hu
    split at hu
    · exact ih g es hu
    · obtain ⟨⟨o, i⟩, ho, hu⟩ := ok_of_bind hu
      obtain ⟨⟨fs, j⟩, hfs, hu⟩ := ok_of_bind hu
      cases hu
      exact (hunfold _ g _ o i ho).trans (ih i fs hfs)

theorem keeping_unfoldTo (u : Unfolding) (depth : Nat) (way : List EntityKey)
    (path : Plan.RelationPath) : Keeping (unfoldTo u depth way path) := by
  induction depth generalizing way path with
  | zero =>
    intro g k v h hu
    cases hu
    exact .refl _
  | succ depth ih =>
    intro g k v h hu
    unfold unfoldTo at hu
    split at hu
    · cases hu
      exact .refl _
    · obtain ⟨⟨es, i⟩, hes, he⟩ := ok_of_map hu
      cases he
      exact keeping_unfoldReferences
        (fun path' => keeping_unfoldReference (ih (k :: way) path') (k :: way) path') path _ _ _ _ _
        hes

/-- A record starts with the loaded fields of its entity. -/
theorem Graph.record_eq_ok {k : EntityKey} {n : Node} (hn : g.node? k = some n) {v : Value}
    (hu : g.record u k = .ok (v, h)) : ∃ es, v = .mapping (n.fieldEntries ++ es) := by
  unfold Graph.record at hu
  cases hdepth : g.nodes.length with
  | zero =>
    have := List.length_pos_of_mem (List.mem_of_find?_eq_some hn)
    omega
  | succ depth =>
    rw [hdepth] at hu
    unfold unfoldTo at hu
    simp only [hn] at hu
    obtain ⟨⟨es, i⟩, -, he⟩ := ok_of_map hu
    exact ⟨es, (congrArg Prod.fst he).symm⟩

/-- An item stands for a row: it shows the key of the row, and an entity has its identity. -/
def Item.StandsFor (e : Entity) (r : Row) : Item → Prop
  | .record v => ∃ es, v = .mapping es ∧ e.ShowsKey r es
  | .entity _ key v => key = e.keyOf r ∧ ∃ es, v = .mapping es ∧ e.ShowsKey r es

variable {s : Schema} {db : Database}

/-- The record of a loaded entity shows the key of the row that it stands for, also once other records
have been unfolded. -/
theorem record_showsKey (hs : s.WellFormed) {e : Entity} (he : e ∈ s.entities) {base : Graph}
    {n : Node} {r : Row} (hn : base.node? (e.keyOf r) = some n) (hstands : n.StandsFor s db r)
    (hshows : n.Shows r) (hcolumns : ∀ c ∈ e.columns, c ∈ n.entity.columns) (hg : base.Keeps g)
    {v : Value} (hu : g.record u (e.keyOf r) = .ok (v, h)) :
    ∃ es, v = .mapping es ∧ e.ShowsKey r es := by
  obtain ⟨m, hm, hentity, hkept⟩ := hg _ n hn
  obtain ⟨es, rfl⟩ := Graph.record_eq_ok hm hu
  refine ⟨_, rfl, Plan.showsKey_of_node hs he hstands hshows (Graph.key_of_node? hn) hcolumns
    fun c hc w hw => ?_⟩
  have hname : c.field ∈ m.entity.columns.map (·.field) := List.mem_map_of_mem (hentity ▸ hc)
  rw [Value.lookupText_append, lookupText_fieldEntries, if_pos hname, hkept c.field w hw, Option.some_or]

namespace Plan

variable {p : Plan} {js : List ResolvedJoin}

/-- The rows of the root in joined rows, each once and in the order of the joined rows. -/
def rootsOf (rows : List JoinedRow) : List Row := (rows.filterMap (·.rowAt 0)).eraseDups

theorem mem_rootsOf {rows : List JoinedRow} {r : Row} : r ∈ rootsOf rows ↔ Reached rows 0 r := by
  rw [rootsOf, List.mem_eraseDups, List.mem_filterMap]
  rfl

theorem mem_rootsOf_sorted {db : Database} {order : List (ColumnRef × Direction)} {r : Row} :
    r ∈ rootsOf (p.sorted db js order) ↔ Reached (p.matched db js) 0 r := by
  rw [mem_rootsOf]
  unfold Reached
  simp only [mem_sorted]

theorem map_rootKey_matched {rows : List JoinedRow} (hrows : ∀ row ∈ rows, row ∈ p.matched db js) :
    rows.map p.rootKey = (rows.filterMap (·.rowAt 0)).map p.root.keyOf := by
  rw [List.map_filterMap, ← List.filterMap_eq_map]
  refine List.filterMap_congr fun row hrow => ?_
  obtain ⟨r, -, rest, rfl⟩ := mem_rows_joined (mem_joined_of_matched (hrows row hrow))
  have hat := JoinedRow.rowAt_entity 0 r rest
  rw [hat, Function.comp_apply, rootKey_of_rowAt hat]
  rfl

theorem rootKeys_matched (hs : s.WellFormed) (hdb : db.Sound s) (hroot : p.root ∈ s.entities)
    {rows : List JoinedRow} (hrows : ∀ row ∈ rows, row ∈ p.matched db js) :
    (rows.map p.rootKey).eraseDups = (rootsOf rows).map p.root.keyOf := by
  have hstored : ∀ r ∈ rows.filterMap (·.rowAt 0), r ∈ db.rows p.root.table := by
    intro r hr
    obtain ⟨row, hrow, hat⟩ := List.mem_filterMap.mp hr
    exact (holdsAt_root hs hdb hroot (hrows row hrow)).stored r hat
  rw [map_rootKey_matched hrows]
  exact eraseDups_map fun a ha b hb hab =>
    (row_of_keyOf hs hdb hroot hroot (hstored a ha) (hstored b hb) hab).1

theorem stored_of_rootsOf (hs : s.WellFormed) (hdb : db.Sound s) (hroot : p.root ∈ s.entities)
    {rows : List JoinedRow} (hrows : ∀ row ∈ rows, row ∈ p.matched db js) {r : Row}
    (hr : r ∈ rootsOf rows) : r ∈ db.rows p.root.table ∧ p.root.Owns r := by
  obtain ⟨row, hrow, hat⟩ := mem_rootsOf.mp hr
  have hholds := holdsAt_root hs hdb hroot (hrows row hrow)
  exact ⟨hholds.stored r hat, hholds.member r hat⟩

/-- A match holds stored rows at all places of the load tree. -/
theorem fills_loadTree (hs : s.WellFormed) (hdb : db.Sound s) (hroot : p.root ∈ s.entities)
    (hst : Staged s p 0 js) {row : JoinedRow} (hrow : row ∈ p.matched db js) :
    row.Fills s db (p.loadTree js) where
  root := by
    rw [occurrence_loadTree]
    exact holdsAt_root hs hdb hroot hrow
  edge := fun e hedge => by
    obtain ⟨j, hj, rfl⟩ := (mem_edges_loadTree hst e).mp hedge
    obtain ⟨-, ⟨k, hk, htarget⟩, -⟩ := occurrences_of_staged hst j hj
    exact holdsAt_matched hs hdb hroot hst hrow (by omega) htarget

end Plan

theorem LoadTree.loadAll_stored (hs : s.WellFormed) (hdb : db.Sound s) {t : LoadTree}
    {rows : List JoinedRow} (hfills : ∀ row ∈ rows, row.Fills s db t) (hg : g.Stored s db)
    (hl : t.loadAll s g rows = .ok h) : h.Stored s db := by
  induction rows generalizing g with
  | nil =>
    cases hl
    exact hg
  | cons row rows ih =>
    obtain ⟨key, i, hload, hrest⟩ := loadAll_cons_eq_ok hl
    exact ih (fun row hr => hfills row (List.mem_cons_of_mem _ hr))
      (load_stored hs hdb (hfills row List.mem_cons_self) hg hload) hrest

namespace Repository

open Plan

variable {p : Plan} {r : Repository} {d : Descriptor}

theorem hydrate_standsFor (hs : s.WellFormed) {e : Entity} (he : e ∈ s.entities) {rs : List Row}
    (hrs : ∀ r ∈ rs, ∃ n, g.node? (e.keyOf r) = some n ∧ n.StandsFor s db r ∧ n.Shows r ∧
      ∀ c ∈ e.columns, c ∈ n.entity.columns) {hydration : Hydration} {items : List Item}
    (hh : hydrate db p hydration g (rs.map e.keyOf) = .ok items) :
    List.Forall₂ (fun r item => item.StandsFor e r) rs items := by
  have hrecord : ∀ (u : Unfolding) (i j : Graph), g.Keeps i → ∀ r ∈ rs, ∀ v,
      i.record u (e.keyOf r) = .ok (v, j) → ∃ es, v = .mapping es ∧ e.ShowsKey r es := by
    intro u i j hi r hr v hv
    obtain ⟨n, hn, hstands, hshows, hcolumns⟩ := hrs r hr
    exact record_showsKey hs he hn hstands hshows hcolumns hi hv
  clear hrs
  unfold hydrate at hh
  cases hydration with
  | entities =>
    have hall := mapM_eq_ok_iff.mp hh
    rw [List.forall₂_map_left_iff] at hall
    refine ((List.forall₂_and_left _ _).mpr ⟨fun r hr => hr, hall⟩).imp fun r item h => ?_
    obtain ⟨⟨v, i⟩, hv, rfl⟩ := ok_of_map h.2
    exact ⟨rfl, hrecord _ g i (.refl g) r h.1 v hv⟩
  | records =>
    obtain ⟨⟨vs, last⟩, hvs, rfl⟩ := ok_of_map hh
    -- the records are unfolded one after the other, each in the graph that the last one left
    have hall : ∀ i, g.Keeps i →
        unfoldItems (fun g k => g.record (unfolding db p) k) i (rs.map e.keyOf) = .ok (vs, last) →
          List.Forall₂ (fun r item => Item.StandsFor e r item) rs (vs.map Item.record) := by
      clear hh hvs
      induction rs generalizing vs with
      | nil =>
        intro i _ hvs
        cases hvs
        exact .nil
      | cons r rs ih =>
        intro i hi hvs
        rw [List.map_cons] at hvs
        obtain ⟨⟨v, j⟩, hv, hvs⟩ := ok_of_bind hvs
        obtain ⟨⟨ws, l⟩, hws, hvs⟩ := ok_of_bind hvs
        cases hvs
        exact .cons (hrecord _ i j hi r List.mem_cons_self v hv)
          (ih (fun u i j hi r hr => hrecord u i j hi r (List.mem_cons_of_mem _ hr)) ws j
            (hi.trans (keeping_unfoldTo _ _ _ _ _ _ _ _ hv)) hws)
    exact hall g (.refl g) hvs

/-- The roots of a load are the rows of the root among the matches between the bounds, each loaded as an
entity that shows its row. -/
theorem nodes_of_load (hs : s.WellFormed) (hdb : db.Sound s) (hroot : p.root ∈ s.entities)
    {o : Outline} (hst : p.Staged s 0 o.1) {roots : List EntityKey}
    (hl : load s db p o = .ok (roots, g)) :
    roots = (rootsOf (within p.limit p.offset (p.sorted db o.1 o.2))).map p.root.keyOf ∧
      ∀ r ∈ rootsOf (within p.limit p.offset (p.sorted db o.1 o.2)),
        ∃ n, g.node? (p.root.keyOf r) = some n ∧ n.StandsFor s db r ∧ n.Shows r ∧
          ∀ c ∈ p.root.columns, c ∈ n.entity.columns := by
  have hrows : ∀ row ∈ within p.limit p.offset (p.sorted db o.1 o.2), row ∈ p.matched db o.1 :=
    fun row hrow => mem_sorted.mp (mem_within hrow)
  have hroots := load_roots hs hdb hroot hst hl
  rw [rootKeys_matched hs hdb hroot hrows] at hroots
  have hall := (LoadTree.loadRows_eq_ok (loadRows_of_load hst hl)).1
  have hstored := LoadTree.loadAll_stored hs hdb
    (fun row hrow => fills_loadTree hs hdb hroot hst (hrows row hrow)) Graph.stored_empty hall
  refine ⟨hroots, fun r hr => ?_⟩
  obtain ⟨row, hrow, hat⟩ := mem_rootsOf.mp hr
  have hholds := holdsAt_root hs hdb hroot (hrows row hrow)
  obtain ⟨n, hn⟩ := Option.isSome_iff_exists.mp (LoadTree.loadAll_root hall hrow (by
    rw [occurrence_loadTree]
    exact JoinedRow.keyAt_of_rowAt hs hdb hholds hat))
  obtain ⟨a, hstands, hshows⟩ := hstored _ n hn
  obtain ⟨rfl, hcolumns, -⟩ := hstands.covers hs hdb hholds hat (Graph.key_of_node? hn)
  exact ⟨n, hn, hstands, hshows, hcolumns⟩

/-- The items of a load stand for the roots of the matches between the bounds. -/
theorem load_standsFor (hs : s.WellFormed) (hdb : db.Sound s) (hroot : p.root ∈ s.entities)
    {o : Outline} (hst : p.Staged s 0 o.1) {roots : List EntityKey}
    (hl : load s db p o = .ok (roots, g)) {hydration : Hydration} {items : List Item}
    (hh : hydrate db p hydration g roots = .ok items) :
    List.Forall₂ (fun r item => item.StandsFor p.root r)
      (rootsOf (within p.limit p.offset (p.sorted db o.1 o.2))) items := by
  obtain ⟨rfl, hnodes⟩ := nodes_of_load hs hdb hroot hst hl
  exact hydrate_standsFor hs hroot hnodes hh

/-- The items of a fetch in a list stand for the roots of the matches between its bounds. -/
theorem fetchAll_standsFor (hs : s.WellFormed) (hdb : db.Sound s)
    (hroot : r.builder.root ∈ s.entities) (hd : d.DistinctAliases r.builder.root)
    (hf : r.ReadsAfresh d) (hindex : d.indexBy = none) {a : Answer}
    (h : (run r (fetchAll s db (.descriptor d))).1 = .ok a) :
    ∃ p o items, planOf s r d = .ok p ∧ p.outline = .ok o ∧ a.fetched = .list items ∧
      List.Forall₂ (fun r item => item.StandsFor p.root r)
        (rootsOf (within d.limit d.offset (p.sorted db o.1 o.2))) items := by
  obtain ⟨p, o, roots, g, fetched, hp, ho, hl, hshape, hend⟩ := fetchAll_eq_ok hf h
  obtain ⟨hproot, hplimit, hpoffset, hpindex, -⟩ := build_frame hp
  have hst := (resolveJoins_eq_ok (layout_build hd hp) (outline_eq_ok ho).1).1
  obtain ⟨items, rfl, hitems⟩ := shape_eq_ok (hpindex.trans hindex) hshape
  have hstands := load_standsFor hs hdb (by rw [hproot]; exact hroot) hst hl hitems
  rw [hplimit, hpoffset] at hstands
  refine ⟨p, o, items, hp, ho, ?_, hstands⟩
  rcases hend with ⟨-, rfl⟩ | ⟨-, total, -, rfl⟩ <;> rfl

/-- An answer lists rows of the root, each once: its items stand for them in order. -/
structure ListsRoots (db : Database) (root : Entity) (a : Answer) (rs : List Row) : Prop where
  items : ∃ items, a.fetched = .list items ∧
    List.Forall₂ (fun r item => Item.StandsFor root r item) rs items
  nodup : rs.Nodup
  stored : ∀ r ∈ rs, r ∈ db.rows root.table

/-- A fetch in a list lists the roots of the matches between its bounds. -/
theorem fetchAll_listsRoots (hs : s.WellFormed) (hdb : db.Sound s)
    (hroot : r.builder.root ∈ s.entities) (hd : d.DistinctAliases r.builder.root)
    (hf : r.ReadsAfresh d) (hindex : d.indexBy = none) {a : Answer}
    (h : (run r (fetchAll s db (.descriptor d))).1 = .ok a) :
    ∃ p o, planOf s r d = .ok p ∧ p.outline = .ok o ∧ ListsRoots db r.builder.root a
      (rootsOf (within d.limit d.offset (p.sorted db o.1 o.2))) := by
  obtain ⟨p, o, items, hp, ho, hitems, hstands⟩ := fetchAll_standsFor hs hdb hroot hd hf hindex h
  have hproot : p.root = r.builder.root := (build_frame hp).1
  refine ⟨p, o, hp, ho, ⟨items, hitems, hproot ▸ hstands⟩, nodup_eraseDups _, ?_⟩
  have hmem : p.root ∈ s.entities := hproot ▸ hroot
  exact fun x hx => hproot ▸
    (stored_of_rootsOf hs hdb hmem (fun row hrow => mem_sorted.mp (mem_within hrow)) hx).1

end Repository
end EntityQuery
