import EntityQuery.Proofs.Agreement
import EntityQuery.Proofs.Described
import EntityQuery.Proofs.JoinPaths
/-!
What records show of a query. A loaded entity is one and the same wherever rows bring it, so its record
shows what is asked for at all of these places. Where no entity is brought at two of them, each record
shows exactly the fields and the relationships that are asked for at its own path.
-/
namespace EntityQuery

/-- The items that were fetched, in whatever form. -/
def Fetched.items : Fetched → List Item
  | .single item => item.toList
  | .list items => items
  | .indexed entries => entries.map Prod.snd

namespace Plan

/-- Rows bring an entity at an occurrence. -/
def Brought (p : Plan) (js : List ResolvedJoin) (rows : List JoinedRow) (o : Occurrence)
    (x : EntityKey) : Prop := ∃ row ∈ rows, Brings p js row o x

/-- A field is asked for of an entity: it is loaded at an occurrence where rows bring the entity. -/
def Asks (p : Plan) (js : List ResolvedJoin) (rows : List JoinedRow) (x : EntityKey)
    (field : String) : Prop :=
  ∃ load ∈ p.loads js, p.Brought js rows load.1 x ∧
    field ∈ (LoadTree.loadedColumns load.1.entity load.2).map (·.field)

/-- The result or a joined collection is keyed by a field. -/
def Keys (p : Plan) (field : String) : Prop :=
  p.indexBy = some field ∨ ∃ j ∈ p.joins, j.indexField? = some field

/-- What records show by their entities: all fields that are asked for of the entity, and no others but
perhaps fields that something is keyed by; and the targets of the joins that start at the entity. -/
def entityDescription (p : Plan) (js : List ResolvedJoin) (rows : List JoinedRow) :
    Description EntityKey where
  columns x names :=
    (∀ f, p.Asks js rows x f → f ∈ names) ∧ ∀ f ∈ names, p.Asks js rows x f ∨ p.Keys f
  joined x name := ∃ j ∈ js, j.relationship.name = name ∧ p.Brought js rows j.source x
  leads x name y := ∃ j ∈ js, j.relationship.name = name ∧
    ∃ row ∈ rows, Brings p js row j.source x ∧ Brings p js row j.target y

/-- What records show by their paths: the fields that are loaded at the path, and joins. -/
def pathDescription (p : Plan) : Description RelationPath where
  columns path names := ∀ f, f ∈ names ↔ p.LoadsAt path f
  joined path name := ∃ jp ∈ p.joinedPaths, jp.2 = path ++ [name]
  leads path name next := next = path ++ [name]

instance (p : Plan) (path : RelationPath) (field : String) : Decidable (p.LoadsAt path field) :=
  inferInstanceAs (Decidable (_ ∨ ∃ jp ∈ p.joinedPaths, _))

/-- No entity is brought at two occurrences. -/
def BringsApart (p : Plan) (js : List ResolvedJoin) (rows : List JoinedRow) : Prop :=
  ∀ o o' x, p.Brought js rows o x → p.Brought js rows o' x → o = o'

/-- The fields that the result and the collections are keyed by are loaded in any case. -/
def LoadsKeys (p : Plan) : Prop :=
  (∀ f, p.indexBy = some f → p.LoadsAt [] f) ∧
    ∀ jp ∈ p.joinedPaths, ∀ f, jp.1.indexField? = some f → p.LoadsAt jp.2 f

instance (p : Plan) : Decidable p.LoadsKeys :=
  inferInstanceAs (Decidable ((∀ f ∈ p.indexBy, _) ∧ ∀ jp ∈ p.joinedPaths, ∀ f ∈ jp.1.indexField?, _))

variable {s : Schema} {db : Database} {p : Plan} {js : List ResolvedJoin} {rows : List JoinedRow}
  {g : Graph} {o : Occurrence} {x y : EntityKey} {field name : String}

theorem Brings.keyAt {row : JoinedRow} (h : Brings p js row o x) : row.keyAt o = some x := by
  cases h with
  | root hx => exact hx
  | join _ _ hy => exact hy

theorem Brings.mem_loads {row : JoinedRow} (h : Brings p js row o x) :
    ∃ fields, (o, fields) ∈ p.loads js := by
  cases h with
  | root => exact ⟨_, List.mem_cons_self⟩
  | join hj => exact ⟨_, List.mem_cons_of_mem _ (List.mem_map.mpr ⟨_, hj, rfl⟩)⟩

theorem occurrence?_of_mem_loads (hst : Staged s p 0 js) {load : Occurrence × List String}
    (h : load ∈ p.loads js) : ∃ k ≤ js.length, p.occurrence? k = some load.1 := by
  rcases List.mem_cons.mp h with rfl | h
  · exact ⟨0, Nat.zero_le _, rfl⟩
  · obtain ⟨j, hj, rfl⟩ := List.mem_map.mp h
    obtain ⟨-, ⟨k, hk, ho⟩, -⟩ := occurrences_of_staged hst j hj
    exact ⟨k, by omega, ho⟩

/-- Entities of two families are never the same. -/
theorem bringsApart_of_families
    (h : (p.root.rootName :: js.map (·.target.entity.rootName)).Nodup) : p.BringsApart js rows := by
  have hnodup : ((p.loads js).map (·.1.entity.rootName)).Nodup := by
    rw [loads, List.map_cons, List.map_map]
    exact h
  rintro o o' x ⟨row, -, hx⟩ ⟨row', -, hx'⟩
  obtain ⟨fields, hload⟩ := hx.mem_loads
  obtain ⟨fields', hload'⟩ := hx'.mem_loads
  have hfamily := (JoinedRow.family_keyAt hx.keyAt).symm.trans (JoinedRow.family_keyAt hx'.keyAt)
  exact congrArg Prod.fst (List.inj_on_of_nodup_map hnodup hload hload' hfamily)

section Apart

variable (hp : p.Layout s) (hjoins : p.resolveJoins = .ok js) (hapart : p.LoadsApart)

include hp hjoins hapart

/-- What is loaded at the path of an occurrence is what is loaded at the occurrence. -/
theorem loadsAt_iff {fields : List String} (hload : (o, fields) ∈ p.loads js) {path : RelationPath}
    (hpath : p.pathAt? o.position = some path) : p.LoadsAt path field ↔
      field ∈ (LoadTree.loadedColumns o.entity fields).map (·.field) := by
  have hindexed : ∀ jp ∈ p.joinedPaths, jp.2 = path → ∃ i, o.position = i + 1 ∧
      p.joinedPaths[i]? = some jp := by
    rintro jp hjp rfl
    obtain ⟨i, hi⟩ := List.mem_iff_getElem?.mp hjp
    have hat : p.pathAt? (i + 1) = some jp.2 := by
      rw [pathAt?, hi]
      rfl
    exact ⟨i, pathAt?_inj hp hapart hpath hat, hi⟩
  rcases List.mem_cons.mp hload with h | h
  · cases h
    obtain rfl : [] = path := Option.some.inj hpath
    refine ⟨fun h => h.elim And.right ?_, fun h => .inl ⟨rfl, h⟩⟩
    rintro ⟨jp, hjp, hsame, -⟩
    obtain ⟨i, hi, -⟩ := hindexed jp hjp hsame
    cases hi
  · obtain ⟨j, hj, he⟩ := List.mem_map.mp h
    cases he
    obtain ⟨i, c, hc, -, htarget, -, hfields⟩ := clause_of_join hp hjoins hj
    obtain ⟨-, -, -, source, -, -, -, hat⟩ := path_of_join hp hc
    rw [htarget] at hpath hindexed ⊢
    rw [hfields]
    have hlast : p.pathAt? (i + 1) = some (source ++ [c.relation]) := by
      rw [pathAt?, hat]
      rfl
    obtain rfl : source ++ [c.relation] = path := Option.some.inj (hlast.symm.trans hpath)
    refine ⟨fun h => h.elim (fun h => by simp at h) ?_, fun h => .inr ⟨_, List.mem_of_getElem? hat, rfl, h⟩⟩
    rintro ⟨jp, hjp, hsame, hfield⟩
    obtain ⟨i', hi', hjp'⟩ := hindexed jp hjp hsame
    cases hi'
    cases hat.symm.trans hjp'
    exact hfield

/-- Where entities are brought apart, exactly what is loaded at the path of an entity is asked for. -/
theorem loadsAt_iff_asks (hst : Staged s p 0 js) (hbrings : p.BringsApart js rows)
    (hx : p.Brought js rows o x) {path : RelationPath} (hpath : p.pathAt? o.position = some path) :
    p.LoadsAt path field ↔ p.Asks js rows x field := by
  obtain ⟨fields, hload⟩ := hx.choose_spec.2.mem_loads
  rw [loadsAt_iff hp hjoins hapart hload hpath]
  refine ⟨fun h => ⟨_, hload, hx, h⟩, ?_⟩
  rintro ⟨⟨o', fields'⟩, hload', hx', h⟩
  obtain rfl := hbrings o o' x hx hx'
  rwa [loads_unique hst hload hload']

end Apart

section Loaded

variable (hs : s.WellFormed) (hdb : db.Sound s) (hroot : p.root ∈ s.entities) (hst : Staged s p 0 js)
  (hrows : ∀ row ∈ rows, row ∈ p.matched db js) (hl : (p.loadTree js).loadAll s {} rows = .ok g)

include hst hl

/-- The loaded fields of an entity are those that are asked for of it. -/
theorem shows_iff_asks : g.shows x field = true ↔ p.Asks js rows x field := by
  have hnone : ¬ ({} : Graph).shows x field = true := by simp [Graph.shows, Graph.node?]
  rw [LoadTree.loadAll_shows hl, or_iff_right hnone]
  constructor
  · rintro ⟨row, hrow, v, hv, rfl, hfield⟩
    obtain ⟨hbrings, hload⟩ := brings_of_visit hst hv
    exact ⟨_, hload, ⟨row, hrow, hbrings⟩, hfield⟩
  · rintro ⟨⟨o, fields⟩, hload, ⟨row, hrow, hbrings⟩, hfield⟩
    obtain ⟨v, hv, hkey, rfl⟩ := exists_visit hst hbrings
    have hsame := loads_unique hst hload (brings_of_visit hst hv).2
    exact ⟨row, hrow, v, hv, hkey.symm, by rw [Visit.loaded, ← hsame]; exact hfield⟩

/-- A loaded relationship is that of a join that starts at the entity. -/
theorem join_of_reference (h : (g.reference? x name).isSome = true) :
    ∃ j ∈ js, j.relationship.name = name ∧ p.Brought js rows j.source x := by
  rcases (LoadTree.loadAll_touched hl x name).mp h with h | ⟨row, hrow, h⟩
  · simp [Graph.reference?, Graph.node?] at h
  · obtain ⟨b, hb, rfl, rfl⟩ := LoadTree.mem_touched_iff.mp h
    obtain ⟨j, hj, hedge, hbrings⟩ := join_of_bond hst hb
    exact ⟨j, hj, by rw [hedge]; rfl, row, hrow, hbrings⟩

/-- A relationship leads to what a row brings at the target of such a join. -/
theorem join_of_item (h : y ∈ g.items x name) : ∃ j ∈ js, j.relationship.name = name ∧
    ∃ row ∈ rows, Brings p js row j.source x ∧ Brings p js row j.target y := by
  rcases LoadTree.mem_items_loadAll hl h with h | ⟨row, hrow, b, hb, rfl, rfl, hy⟩
  · simp [Graph.items, Graph.reference?, Graph.node?] at h
  · obtain ⟨j, hj, hedge, hbrings⟩ := join_of_bond hst hb
    rw [hedge] at hy
    exact ⟨j, hj, by rw [hedge]; rfl, row, hrow, hbrings, .join hj hbrings hy⟩

include hs hdb hroot hrows

omit hl in
theorem holdsAt_of_brought (h : p.Brought js rows o x) :
    ∃ row ∈ rows, row.HoldsAt s db o ∧ ∃ r, row.rowAt o.position = some r ∧ x = o.entity.keyOf r := by
  obtain ⟨row, hrow, hbrings⟩ := h
  obtain ⟨fields, hload⟩ := hbrings.mem_loads
  obtain ⟨k, hk, ho⟩ := occurrence?_of_mem_loads hst hload
  have hholds := holdsAt_matched hs hdb hroot hst (hrows row hrow) hk ho
  exact ⟨row, hrow, hholds, JoinedRow.rowAt_of_keyAt hs hdb hholds hbrings.keyAt⟩

theorem has_of_brought (h : p.Brought js rows o x) : g.Has x := by
  obtain ⟨row, -, hholds, -⟩ := holdsAt_of_brought hs hdb hroot hst hrows h
  obtain ⟨fields, hload⟩ := h.choose_spec.2.mem_loads
  -- a key column is loaded wherever the entity is brought
  obtain ⟨c, hc⟩ := List.exists_mem_of_ne_nil _ (hs.keyed _ hholds.entity)
  obtain ⟨hcolumn, hkey⟩ := List.mem_filter.mp hc
  have hshows := (shows_iff_asks hst hl).mpr ⟨_, hload, h, List.mem_map.mpr
    ⟨c, List.mem_filter.mpr ⟨hcolumn, by simp [LoadTree.loadsField, hkey]⟩, rfl⟩⟩
  unfold Graph.shows at hshows
  unfold Graph.Has
  cases hn : g.node? x with
  | none =>
    rw [hn] at hshows
    cases hshows
  | some n => rfl

/-- A loaded entity has the columns of the occurrences at which rows bring it. -/
theorem columns_of_brought (h : p.Brought js rows o x) {m : Node} (hm : g.node? x = some m) :
    ∀ c ∈ o.entity.columns, c ∈ m.entity.columns := by
  obtain ⟨row, -, hholds, r, hr, rfl⟩ := holdsAt_of_brought hs hdb hroot hst hrows h
  have hstored := LoadTree.loadAll_stored hs hdb
    (fun row hrow => fills_loadTree hs hdb hroot hst (hrows row hrow)) Graph.stored_empty hl
  obtain ⟨a, hstands, -⟩ := hstored _ m hm
  exact (hstands.covers hs hdb hholds hr (Graph.key_of_node? hm)).2.1

/-- A field that is asked for of an entity is one of its fields, and it is loaded. -/
theorem loaded_of_asks (h : p.Asks js rows x field) {m : Node} (hm : g.node? x = some m) :
    field ∈ m.entity.columns.map (·.field) ∧ (m.column? field).isSome = true := by
  have hshows := (shows_iff_asks hst hl).mpr h
  obtain ⟨load, -, hbrought, hfield⟩ := h
  obtain ⟨c, hc, rfl⟩ := List.mem_map.mp hfield
  refine ⟨List.mem_map.mpr ⟨c, ?_, rfl⟩, by simpa [Graph.shows, hm] using hshows⟩
  exact columns_of_brought hs hdb hroot hst hrows hl hbrought hm c (List.mem_filter.mp hc).1

/-- The loaded entities are as they are described, each by itself. -/
theorem entityDescription_fits {u : Unfolding} (hindex : u.index = p.collectionIndex) :
    (p.entityDescription js rows).Fits u g (fun _ f => p.Keys f)
      fun _ a x => a = x ∧ ∃ o, p.Brought js rows o x where
  has := by
    rintro - a x ⟨-, o, hx⟩
    exact has_of_brought hs hdb hroot hst hrows hl hx
  columns := by
    rintro - a x m ⟨rfl, -⟩ hm names hnames hloaded
    refine ⟨fun f hf => ?_, fun f hf => (hnames f hf).2.imp_left fun hsome => ?_⟩
    · obtain ⟨hcolumn, hsome⟩ := loaded_of_asks hs hdb hroot hst hrows hl hf hm
      exact hloaded f hcolumn hsome
    · exact (shows_iff_asks hst hl).mp (by simp [Graph.shows, hm, hsome])
  joined := by
    rintro - a x name ⟨rfl, -⟩ href
    exact join_of_reference hst hl href
  leads := by
    rintro - a x name y ⟨rfl, -⟩ hy
    obtain ⟨j, hj, hname, row, hrow, hsource, htarget⟩ := join_of_item hst hl hy
    exact ⟨y, ⟨j, hj, hname, row, hrow, hsource, htarget⟩, rfl, j.target, row, hrow, htarget⟩
  index := by
    rintro path a x name y f - - hf
    rw [hindex] at hf
    obtain ⟨jp, hjp, -, hfield⟩ := exists_keyedJoin hf
    exact .inl (.inr ⟨jp.1, mem_joinPaths hjp, hfield⟩)

section Along

variable (hp : p.Layout s) (hjoins : p.resolveJoins = .ok js) (hapart : p.LoadsApart)
  (hbrings : p.BringsApart js rows) (hkeys : p.LoadsKeys)

include hs hdb hroot hrows hl hp hjoins hapart hbrings hkeys

/-- Loaded entities that are brought apart are as their paths are described. -/
theorem pathDescription_fits {u : Unfolding} (hindex : u.index = p.collectionIndex) :
    p.pathDescription.Fits u g (fun _ _ => False) fun path a x => a = path ∧
      ∃ o, p.Brought js rows o x ∧ p.pathAt? o.position = some path where
  has := by
    rintro path a x ⟨-, o, hx, -⟩
    exact has_of_brought hs hdb hroot hst hrows hl hx
  columns := by
    rintro path a x m ⟨rfl, o, hx, hpath⟩ hm names hnames hloaded f
    rw [loadsAt_iff_asks hp hjoins hapart hst hbrings hx hpath]
    refine ⟨fun hf => ?_, fun hf => ?_⟩
    · have hsome := (hnames f hf).2.resolve_right id
      exact (shows_iff_asks hst hl).mp (by simp [Graph.shows, hm, hsome])
    · obtain ⟨hcolumn, hsome⟩ := loaded_of_asks hs hdb hroot hst hrows hl hf hm
      exact hloaded f hcolumn hsome
  joined := by
    rintro path a x name ⟨rfl, o, hx, hpath⟩ href
    obtain ⟨j, hj, rfl, hsource⟩ := join_of_reference hst hl href
    obtain rfl := hbrings o j.source x hx hsource
    obtain ⟨source, hat, htarget⟩ := path_of_resolved hp hjoins hj
    cases hpath.symm.trans hat
    exact exists_joinedPath htarget
  leads := by
    rintro path a x name y ⟨rfl, o, hx, hpath⟩ hy
    obtain ⟨j, hj, rfl, row, hrow, hsource, htarget⟩ := join_of_item hst hl hy
    obtain rfl := hbrings o j.source x hx ⟨row, hrow, hsource⟩
    obtain ⟨source, hat, hnext⟩ := path_of_resolved hp hjoins hj
    cases hpath.symm.trans hat
    exact ⟨_, rfl, rfl, j.target, ⟨row, hrow, htarget⟩, hnext⟩
  index := by
    rintro path a x name y f ⟨rfl, o, hx, hpath⟩ hy hf
    obtain ⟨j, hj, rfl, row, hrow, hsource, htarget⟩ := join_of_item hst hl hy
    obtain rfl := hbrings o j.source x hx ⟨row, hrow, hsource⟩
    obtain ⟨source, hat, hnext⟩ := path_of_resolved hp hjoins hj
    cases hpath.symm.trans hat
    rw [hindex] at hf
    obtain ⟨jp, hjp, hsame, hfield⟩ := exists_keyedJoin hf
    have hloads := hkeys.2 jp hjp f hfield
    rw [hsame] at hloads
    exact .inr ((shows_iff_asks hst hl).mpr
      ((loadsAt_iff_asks hp hjoins hapart hst hbrings ⟨row, hrow, htarget⟩ hnext).mp hloads))

end Along

end Loaded

/-- An item is a record that shows what is asked for: of the entity that rows bring at the root and of
the entities that this leads to; and along the paths, where entities are brought apart. -/
def ShowsAsked (p : Plan) (js : List ResolvedJoin) (rows : List JoinedRow) (item : Item) : Prop :=
  ∃ v, item = .record v ∧
    (∃ x, p.Brought js rows (rootOccurrence p.root) x ∧
      Described (p.entityDescription js rows) x v) ∧
    (p.BringsApart js rows → p.LoadsKeys → Described p.pathDescription [] v)

end Plan

namespace Repository

open Plan

variable {s : Schema} {db : Database} {r : Repository} {d : Descriptor} {p : Plan} {o : Outline}
  {g : Graph} {roots : List EntityKey}

/-- Items are records that are described as the entities of their roots, however these are described. -/
def DescribedItems (db : Database) (p : Plan) (g : Graph) (roots : List EntityKey)
    (items : List Item) : Prop :=
  ∀ (Place : Type) (D : Description Place) extra Stands, D.Fits (unfolding db p) g extra Stands →
    (∀ x ∈ roots, ∃ a, Stands [] a x) →
    (∀ f, p.indexBy = some f → ∀ x ∈ roots, extra x f ∨ g.shows x f = true) →
      ∀ item ∈ items, ∃ v, item = .record v ∧ DescribedRoot D Stands roots v

theorem describedItems_hydrate {items : List Item}
    (hh : hydrate db p .records g roots = .ok items) : DescribedItems db p g roots items := by
  intro Place D extra Stands hfits hroots hkeys item hitem
  obtain ⟨⟨vs, i⟩, hvs, rfl⟩ := ok_of_map hh
  obtain ⟨hdescribed, -⟩ := unfoldItems_into (record_described hfits roots)
    (fun x hx => ⟨hx, hroots x hx⟩) (.refl g) hvs
  obtain ⟨v, hv, rfl⟩ := List.mem_map.mp hitem
  exact ⟨v, rfl, hdescribed v hv⟩

theorem describedItems_shape {fetched : Fetched}
    (hh : shape db p .records g roots = .ok fetched) : DescribedItems db p g roots fetched.items := by
  cases hindex : p.indexBy with
  | none =>
    obtain ⟨items, rfl, hitems⟩ := shape_eq_ok hindex hh
    exact describedItems_hydrate hitems
  | some field =>
    intro Place D extra Stands hfits hroots hkeys item hitem
    unfold shape at hh
    rw [hindex] at hh
    obtain ⟨entries, hentries, rfl⟩ := ok_of_map hh
    obtain ⟨⟨es, i⟩, hes, rfl⟩ := ok_of_map hentries
    obtain ⟨hdescribed, -⟩ := unfoldKeyed_into (record_described hfits roots)
      (fun x hx => ⟨hx, hroots x hx⟩) (fun x hx => by
        obtain ⟨a, hstands⟩ := hroots x hx
        obtain ⟨m, hm⟩ := Option.isSome_iff_exists.mp (hfits.has _ _ _ hstands)
        exact ⟨m, hm, (hkeys field hindex x hx).imp_right fun hshows => by
          simpa [Graph.shows, hm] using hshows⟩) (.refl g) hes
    obtain ⟨e, he, rfl⟩ := List.mem_map.mp hitem
    obtain ⟨q, hq, hsame⟩ := Value.mem_keyedOfList he
    obtain ⟨entry, hentry, rfl⟩ := List.mem_map.mp hq
    exact ⟨entry.2, hsame, hdescribed entry hentry⟩

/-- The roots of a load are what the rows between the bounds bring at the root. -/
theorem brought_of_load (hst : Staged s p 0 o.1) (hload : load s db p o = .ok (roots, g)) :
    (p.loadTree o.1).loadAll s {} (within p.limit p.offset (p.sorted db o.1 o.2)) = .ok g ∧
      ∀ x ∈ roots,
        p.Brought o.1 (within p.limit p.offset (p.sorted db o.1 o.2)) (rootOccurrence p.root) x := by
  obtain ⟨hall, hkeys⟩ := LoadTree.loadRows_eq_ok (loadRows_of_load hst hload)
  refine ⟨hall, fun x hx => ?_⟩
  rw [hkeys, List.mem_eraseDups, List.mem_filterMap] at hx
  obtain ⟨row, hrow, hkey⟩ := hx
  rw [LoadTree.key?, occurrence_loadTree] at hkey
  exact ⟨row, hrow, .root hkey⟩

/-- The items of a load show what is asked for. -/
theorem showsAsked_of_load (hs : s.WellFormed) (hdb : db.Sound s) (hroot : p.root ∈ s.entities)
    (hp : p.Layout s) (ho : p.outline = .ok o) (hload : load s db p o = .ok (roots, g))
    {items : List Item} (hitems : DescribedItems db p g roots items) :
    ∀ item ∈ items, p.ShowsAsked o.1 (within p.limit p.offset (p.sorted db o.1 o.2)) item := by
  have hjoins := (outline_eq_ok ho).1
  have hst := (resolveJoins_eq_ok hp hjoins).1
  have hrows : ∀ row ∈ within p.limit p.offset (p.sorted db o.1 o.2), row ∈ p.matched db o.1 :=
    fun row hrow => mem_sorted.mp (mem_within hrow)
  obtain ⟨hall, hbrought⟩ := brought_of_load hst hload
  have hapart : p.LoadsApart := by
    by_contra hapart
    obtain ⟨selection, hselection, -⟩ := load_eq_ok hload
    rw [assemble_of_not_loadsApart hp hapart hjoins] at hselection
    cases hselection
  intro item hitem
  obtain ⟨v, rfl, x, hx, a, ⟨rfl, -⟩, hdescribed⟩ := hitems _ _ _ _
    (entityDescription_fits hs hdb hroot hst hrows hall rfl) (fun x hx => ⟨x, rfl, _, hbrought x hx⟩)
    (fun f hf x _ => .inl (.inl hf)) item hitem
  refine ⟨v, rfl, ⟨a, hbrought a hx, hdescribed⟩, fun hbrings hloads => ?_⟩
  obtain ⟨w, hw, x, -, path, ⟨rfl, -⟩, hdescribed⟩ := hitems _ _ _ _
    (pathDescription_fits hs hdb hroot hst hrows hall hp hjoins hapart hbrings hloads rfl)
    (fun x hx => ⟨[], rfl, _, hbrought x hx, rfl⟩)
    (fun f hf x hx => .inr ((shows_iff_asks hst hall).mpr
      ((loadsAt_iff_asks hp hjoins hapart hst hbrings (hbrought x hx) rfl).mp (hloads.1 f hf))))
    _ hitem
  cases hw
  exact hdescribed

/-- Records show what a query asks for, and no more. A record shows the fields that are asked for of its
entity, at any of the places where the fetched rows bring the entity, and leads along joins to what the
rows bring at their targets. Where no entity is brought at two places and keys of results are loaded,
each record shows exactly the fields asked for at its own path, and each path in it is that of a join. -/
theorem fetch_showsAsked (hs : s.WellFormed) (hdb : db.Sound s) (hroot : r.builder.root ∈ s.entities)
    (hd : d.DistinctAliases r.builder.root) (hf : r.ReadsAfresh d) (hrecords : d.hydration = .records)
    (hp : planOf s r d = .ok p) (ho : p.outline = .ok o) :
    (∀ a, (run r (fetchAll s db (.descriptor d))).1 = .ok a → ∀ item ∈ a.fetched.items,
      p.ShowsAsked o.1 (within p.limit p.offset (p.sorted db o.1 o.2)) item) ∧
    ∀ item, (run r (fetchOne s db (.descriptor d))).1 = .ok (some item) →
      p.ShowsAsked o.1 (within p.limit p.offset (p.sorted db o.1 o.2)) item := by
  have hproot : p.root ∈ s.entities := (build_frame hp).1.symm ▸ hroot
  constructor
  · intro a ha
    obtain ⟨p', o', roots, g, fetched, hp', ho', hload, hshape, hend⟩ := fetchAll_eq_ok hf ha
    cases hp.symm.trans hp'
    cases ho.symm.trans ho'
    rw [hrecords] at hshape
    have hfetched : a.fetched = fetched := by
      rcases hend with ⟨-, rfl⟩ | ⟨-, total, -, rfl⟩ <;> rfl
    rw [hfetched]
    exact showsAsked_of_load hs hdb hproot (layout_build hd hp) ho hload (describedItems_shape hshape)
  · intro item hitem
    obtain ⟨p', o', roots, g, hp', ho', hload, -, hitem⟩ := fetchOne_eq_ok hf hitem
    cases hp.symm.trans hp'
    cases ho.symm.trans ho'
    have hhydrate := hitem item rfl
    rw [hrecords] at hhydrate
    exact showsAsked_of_load hs hdb hproot (layout_build hd hp) ho hload
      (describedItems_hydrate hhydrate) item (List.mem_singleton_self item)

/-- Articles by title with their authors, and with their comments by key. -/
def titledArticles : Descriptor where
  fields := ["title"]
  relations := .ofList
    [("author", { fields := some ["name"] }),
     ("comments", { fields := some ["text"], indexBy := some "id" })]
  indexBy := some "title"
  hydration := .records

theorem described_titledArticles :
    ∃ p items, planOf Model.sample (ofRoot Model.Blog.article) titledArticles = .ok p ∧
      p.joinedPaths.map Prod.snd = [["author"], ["comments"]] ∧
      (run (ofRoot Model.Blog.article)
        (fetchAll Model.sample Model.sampleRows (.descriptor titledArticles))).1 =
          .ok (.plain items) ∧
      items.items.length = 3 ∧
      ∀ item ∈ items.items, ∃ v, item = .record v ∧ Described p.pathDescription [] v := by
  obtain ⟨p, o, hp, ho, hpaths, hfamilies, hkeys⟩ := exists_outline (s := Model.sample)
    (r := ofRoot Model.Blog.article) (d := titledArticles)
    (P := fun p o => p.joinedPaths.map Prod.snd = [["author"], ["comments"]] ∧
      (p.root.rootName :: o.1.map (·.target.entity.rootName)).Nodup ∧ p.LoadsKeys) (by decide +kernel)
  have hread : (readUnsorted Model.sample Model.sampleRows (ofRoot Model.Blog.article)
      titledArticles).toOption.map (·.items.length) = some 3 := by decide +kernel
  obtain ⟨items, hitems, hlength⟩ := Option.map_eq_some_iff.mp hread
  have hall : (run (ofRoot Model.Blog.article)
      (fetchAll Model.sample Model.sampleRows (.descriptor titledArticles))).1 =
        .ok (.plain items) := by
    rw [fetchAll_unsorted _ _ _ rfl rfl rfl, eq_ok_of_toOption hitems]
    rfl
  refine ⟨p, items, hp, hpaths, hall, hlength, fun item hitem => ?_⟩
  obtain ⟨v, rfl, -, hdescribed⟩ := (fetch_showsAsked sample_wellFormed sampleRows_sound
    (r := ofRoot Model.Blog.article) (d := titledArticles) (by decide) (by decide +kernel)
    (readsAfresh_of_uncached rfl) rfl hp ho).1 _ hall item hitem
  exact ⟨v, rfl, hdescribed (bringsApart_of_families hfamilies) hkeys⟩

/-- What an item shows under a name in what it shows under this name. -/
def shownTwice? (name : String) : Item → Option Value
  | .record (.mapping es) => match Value.lookupText name es with
    | some (.mapping fs) => Value.lookupText name fs
    | _ => none
  | _ => none

/-- Whether a list shows nothing two steps along a relation. -/
def showsNothingTwice (name : String) (items : List Item) : Bool :=
  items.any fun item => match shownTwice? name item with
    | some .null => true
    | _ => false

/-- The category above another one is a root of the list as well. So it shows that nothing is above it,
which no join of the plan leads to. -/
theorem not_described_nestedCategories :
    ∃ p items, nestedCategories.DistinctAliases Model.Shop.category ∧
      planOf Model.sample (ofRoot Model.Shop.category) nestedCategories = .ok p ∧
      p.joinedPaths.map Prod.snd = [["parent"]] ∧
      (run (ofRoot Model.Shop.category)
        (fetchAll Model.sample Model.sampleRows (.descriptor nestedCategories))).1 =
          .ok (.plain (.list items)) ∧
      ∃ v, .record v ∈ items ∧ ¬ Described p.pathDescription [] v := by
  obtain ⟨p, o, hp, -, hpaths, hroot, habove⟩ := exists_outline (s := Model.sample)
    (r := ofRoot Model.Shop.category) (d := nestedCategories)
    (P := fun p _ => p.joinedPaths.map Prod.snd = [["parent"]] ∧ ¬ p.LoadsAt [] "parent" ∧
      ¬ p.LoadsAt ["parent"] "parent") (by decide +kernel)
  obtain ⟨items, hall, hshown⟩ := fetchAll_listed Model.sample Model.sampleRows
    (showsNothingTwice "parent") (r := ofRoot Model.Shop.category) (d := nestedCategories) rfl rfl
    (v := true) (by decide +kernel)
  refine ⟨p, items, by decide +kernel, hp, hpaths, hall, ?_⟩
  obtain ⟨item, hitem, hnull⟩ := List.any_eq_true.mp hshown
  obtain ⟨es, fs, rfl, hes, hfs⟩ : ∃ es fs, item = .record (.mapping es) ∧
      Value.lookupText "parent" es = some (.mapping fs) ∧
      Value.lookupText "parent" fs = some .null := by
    unfold shownTwice? at hnull
    split at hnull
    · rename_i hnested
      split at hnested
      · rename_i es
        split at hnested
        · exact ⟨es, _, rfl, ‹_›, hnested⟩
        · cases hnested
      · cases hnested
    · cases hnull
  refine ⟨_, hitem, fun h => ?_⟩
  obtain ⟨-, hbelow⟩ := h.relationship hes fun names hnames hmem => hroot ((hnames _).mp hmem)
  obtain ⟨e, he, hsome⟩ := List.exists_of_findSome?_eq_some hfs
  have hnothing : e.2 = .null := by
    split at hsome <;> simp_all
  obtain ⟨path, rfl, h⟩ := hbelow.record he (by simp [hnothing])
  obtain ⟨⟨jp, hjp, hsame⟩, -⟩ :=
    h.relationship hfs fun names hnames hmem => habove ((hnames _).mp hmem)
  have hpath : jp.2 ∈ p.joinedPaths.map Prod.snd := List.mem_map_of_mem hjp
  rw [hpaths, hsame] at hpath
  simp at hpath

end Repository
end EntityQuery
