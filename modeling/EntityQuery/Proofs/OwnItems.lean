import EntityQuery.Proofs.Alike
import EntityQuery.Proofs.Items
import EntityQuery.Proofs.Records
import EntityQuery.Proofs.References
/-!
Items of rows. The record of an entity is the same in a graph and in any closed part of it. So where
joins follow references to single entities and rows bring their entities alike, the item of each root
is the one that its row gives alone, whichever rows are read with it.
-/
namespace EntityQuery

namespace Graph

/-- References lead to loaded entities. -/
def Closed (g : Graph) : Prop := ∀ x name, ∀ y ∈ g.items x name, g.Has y

theorem closed_empty : Closed {} := fun _ _ _ h => absurd h List.not_mem_nil

theorem Closed.of_reference? {g h : Graph} (hg : g.Closed)
    (hr : ∀ x name, h.reference? x name = g.reference? x name) (hhas : ∀ x, g.Has x → h.Has x) :
    h.Closed := fun x name y hy => hhas y (hg x name y (items_eq (hr x name) ▸ hy))

end Graph

namespace LoadTree

variable {s : Schema} {row : JoinedRow}

mutual

/-- Loading leads to loaded entities only. -/
theorem load_closed {t : LoadTree} {g h : Graph} {key : Option EntityKey} (hg : g.Closed)
    (hl : t.load s row g = .ok (key, h)) : h.Closed := by
  obtain ⟨o, fields, cs⟩ := t
  rcases load_eq_ok hl with ⟨-, -, rfl⟩ | ⟨k, -, -, ⟨hhas, hbelow⟩ | ⟨member, hnot, -, hbelow⟩⟩
  · exact hg
  · refine loadBelow_closed (hg.of_reference? (fun x name => Graph.reference?_addColumns g k x _ name)
      fun x => ?_) ((Graph.has_addColumns g k k _).mpr hhas) hbelow
    exact (Graph.has_addColumns g k x _).mpr
  · exact loadBelow_closed (hg.of_reference? (fun x name => Graph.reference?_add rfl x name)
      fun x hx => (Graph.has_add g _ x).mpr (.inl hx)) ((Graph.has_add g _ k).mpr (.inr rfl)) hbelow

theorem loadBelow_closed {cs : List (Relationship × LoadTree)} {key : EntityKey} {isNew : Bool}
    {g h : Graph} (hg : g.Closed) (hhas : g.Has key)
    (hl : loadBelow s row key isNew g cs = .ok h) : h.Closed := by
  cases cs with
  | nil =>
    cases hl
    exact hg
  | cons c rest =>
    obtain ⟨q, t⟩ := c
    obtain ⟨i, hi, hrest⟩ := loadBelow_cons_eq_ok hl
    obtain ⟨hgrows, htarget⟩ := load_grows hi
    have hiclosed : i.Closed := load_closed (fun x name y hy =>
      (Graph.has_opened y).mpr (hg x name y (Graph.mem_items_of_opened hhas hy))) hi
    have hihas : i.Has key := hgrows.has _ ((Graph.has_opened key).mpr hhas)
    refine loadBelow_closed (fun x name y hy => (Graph.has_placed y).mpr ?_)
      ((Graph.has_placed key).mpr hihas) hrest
    rcases Graph.mem_items_of_placed hihas hy with hy | ⟨-, -, hy⟩
    · exact hiclosed x name y hy
    · exact htarget y hy

end

end LoadTree

/-- A graph is a part of another one that shows its entities alike, and it leads to no other entities. -/
structure Graph.PartOf (a g : Graph) : Prop where
  like : ∀ x n, a.node? x = some n → ∃ m, g.node? x = some m ∧ n.Like m
  refers : a.RefersOnly
  closed : a.Closed

theorem Node.Like.fieldEntries {n m : Node} (h : n.Like m) : n.fieldEntries = m.fieldEntries := by
  unfold Node.fieldEntries
  rw [h.entity]
  exact List.filterMap_congr fun c _ => by rw [h.columns]

variable {u : Unfolding} {a g : Graph}

theorem unfoldReferences_like
    (unfold unfold' : Plan.RelationPath → Graph → Reference → Except QueryError (Option Value × Graph))
    {n m : Node} (hlike : n.Like m) (path : Plan.RelationPath)
    (hunfold : ∀ path name ref, n.reference? name = some ref →
      ∃ o, unfold path a ref = .ok (o, a) ∧ unfold' path g ref = .ok (o, g)) (rs : List Relationship) :
    ∃ es, unfoldReferences unfold path n a rs = .ok (es, a) ∧
      unfoldReferences unfold' path m g rs = .ok (es, g) := by
  induction rs with
  | nil => exact ⟨[], rfl, rfl⟩
  | cons r rs ih =>
    obtain ⟨es, hes, hes'⟩ := ih
    unfold unfoldReferences
    rw [← hlike.references]
    cases href : n.reference? r.name with
    | none => exact ⟨es, hes, hes'⟩
    | some ref =>
      obtain ⟨o, ho, ho'⟩ := hunfold (path ++ [r.name]) r.name ref href
      simp only [ho, ho', bind, Except.bind, hes, hes']
      exact ⟨_, rfl, rfl⟩

/-- A reference unfolds in a graph as in a part of it if the entities behind the way do. -/
theorem unfoldReference_like (hpart : a.PartOf g) {way : List EntityKey} {path : Plan.RelationPath}
    {record record' : Graph → EntityKey → Unfolded}
    (hrecord : ∀ y, a.Has y → y ∉ way → ∃ v, record a y = .ok (v, a) ∧ record' g y = .ok (v, g))
    {k : EntityKey} {name : String} {ref : Reference} (href : a.reference? k name = some ref) :
    ∃ o, unfoldReference u way path record a ref = .ok (o, a) ∧
      unfoldReference u way path record' g ref = .ok (o, g) := by
  have hone := hpart.refers k name ref href
  cases ref with
  | many ks => cases hone
  | one t =>
    cases t with
    | none => exact ⟨_, rfl, rfl⟩
    | some y =>
      have hy : a.Has y := hpart.closed k name y (by simp [Graph.items, href, Reference.items])
      unfold unfoldReference
      by_cases hin : y ∈ way
      · simp only [List.contains_iff_mem, hin, if_true]
        exact ⟨none, rfl, rfl⟩
      · obtain ⟨v, hv, hv'⟩ := hrecord y hy hin
        simp only [List.contains_iff_mem, hin, if_false, hv, hv']
        exact ⟨some v, rfl, rfl⟩

/-- A depth that no way of entities of a graph gets beyond. -/
def Graph.Deep (a : Graph) (way : List EntityKey) (depth : Nat) : Prop :=
  ∀ w : List EntityKey, w.Nodup → (∀ x ∈ w, a.Has x) → w.length ≤ way.length + depth

theorem Graph.Deep.pos {way : List EntityKey} {depth : Nat} (hd : a.Deep way depth)
    {k : EntityKey} (hway : (k :: way).Nodup) (hhas : ∀ x ∈ k :: way, a.Has x) :
    ∃ less, depth = less + 1 ∧ a.Deep (k :: way) less := by
  have hlength := hd _ hway hhas
  rw [List.length_cons] at hlength
  cases depth with
  | zero => omega
  | succ depth =>
    refine ⟨depth, rfl, fun w hw hwhas => ?_⟩
    have := hd w hw hwhas
    rw [List.length_cons]
    omega

/-- An entity unfolds in a graph as in a part of it, to any depths that are deep enough. -/
theorem unfoldTo_like (hpart : a.PartOf g) {depth depth' : Nat} {way : List EntityKey}
    {path : Plan.RelationPath} {k : EntityKey} (hway : (k :: way).Nodup)
    (hhas : ∀ x ∈ k :: way, a.Has x) (hd : a.Deep way depth) (hd' : a.Deep way depth') :
    ∃ v, unfoldTo u depth way path a k = .ok (v, a) ∧ unfoldTo u depth' way path g k = .ok (v, g) := by
  -- a way holds distinct entities of the part, so neither depth runs out before the references end
  induction depth generalizing depth' way path k with
  | zero =>
    obtain ⟨less, h, -⟩ := hd.pos hway hhas
    cases h
  | succ depth ih =>
    obtain ⟨less, h, hless⟩ := hd.pos hway hhas
    cases h
    obtain ⟨less', rfl, hless'⟩ := hd'.pos hway hhas
    obtain ⟨n, hn⟩ := Option.isSome_iff_exists.mp (hhas k List.mem_cons_self)
    obtain ⟨m, hm, hlike⟩ := hpart.like k n hn
    have hunfold : ∀ path name ref, n.reference? name = some ref → ∃ o,
        unfoldReference u (k :: way) path (unfoldTo u depth (k :: way) path) a ref = .ok (o, a) ∧
        unfoldReference u (k :: way) path (unfoldTo u less' (k :: way) path) g ref = .ok (o, g) := by
      intro path name ref href
      have hloaded : a.reference? k name = some ref := by simp [Graph.reference?, hn, href]
      refine unfoldReference_like hpart (fun y hy hin => ?_) hloaded
      refine ih (List.nodup_cons.mpr ⟨hin, hway⟩) (fun x hx => ?_) hless hless'
      rcases List.mem_cons.mp hx with rfl | hx
      · exact hy
      · exact hhas x hx
    obtain ⟨es, hes, hes'⟩ := unfoldReferences_like
      (fun path => unfoldReference u (k :: way) path (unfoldTo u depth (k :: way) path))
      (fun path => unfoldReference u (k :: way) path (unfoldTo u less' (k :: way) path))
      hlike path hunfold n.entity.relationships
    refine ⟨.mapping (n.fieldEntries ++ es), ?_, ?_⟩
    · unfold unfoldTo
      simp only [hn, hes]
      rfl
    · unfold unfoldTo
      simp only [hm, ← hlike.entity, ← hlike.fieldEntries, hes']
      rfl

/-- An entity has the same record in a graph and in a part of it. -/
theorem Graph.PartOf.record (hpart : a.PartOf g) {k : EntityKey} (hk : a.Has k) (u : Unfolding) :
    ∃ v, a.record u k = .ok (v, a) ∧ g.record u k = .ok (v, g) := by
  have hhas : ∀ x, a.Has x → g.Has x := fun x hx => by
    obtain ⟨n, hn⟩ := Option.isSome_iff_exists.mp hx
    obtain ⟨m, hm, -⟩ := hpart.like x n hn
    simp [Graph.Has, hm]
  refine unfoldTo_like hpart (List.nodup_singleton k) (fun x hx => ?_) (fun w hw hwhas => ?_)
    fun w hw hwhas => ?_
  · cases List.mem_singleton.mp hx
    exact hk
  · rw [List.length_nil, Nat.zero_add]
    exact Graph.length_way_le hw hwhas
  · rw [List.length_nil, Nat.zero_add]
    exact Graph.length_way_le hw fun x hx => hhas x (hwhas x hx)

/-- Two loaded entities have the same fields loaded, and the same references. -/
structure Node.LoadedLike (n m : Node) : Prop where
  entity : n.entity = m.entity
  fields : ∀ field, (n.column? field).isSome = (m.column? field).isSome
  references : ∀ name, n.reference? name = m.reference? name

/-- Of the entities that two graphs hold they have loaded the same names, in the same order. -/
def Graph.NamesAlike (g h : Graph) : Prop :=
  ∀ n ∈ g.nodes, ∀ m ∈ h.nodes, n.key = m.key → n.entity = m.entity ∧
    n.columns.map Prod.fst = m.columns.map Prod.fst ∧ n.references = m.references

instance (g h : Graph) : Decidable (g.NamesAlike h) :=
  inferInstanceAs (Decidable (∀ n ∈ g.nodes, ∀ m ∈ h.nodes, n.key = m.key → _ ∧ _ ∧ _))

theorem isSome_lookup_congr {α : Type} {es fs : List (String × α)}
    (h : es.map Prod.fst = fs.map Prod.fst) (name : String) :
    (List.lookup name es).isSome = (List.lookup name fs).isSome := by
  induction es generalizing fs with
  | nil =>
    cases fs with
    | nil => rfl
    | cons f fs => cases h
  | cons e es ih =>
    cases fs with
    | nil => cases h
    | cons f fs =>
      obtain ⟨hhead, htail⟩ := List.cons.inj h
      have hname : e.1 = f.1 := hhead
      rw [List.lookup_cons, List.lookup_cons, hname]
      split
      · rfl
      · exact ih htail

variable {s : Schema} {db : Database}

/-- Stored entities show what they have loaded. -/
theorem Node.LoadedLike.like (hs : s.WellFormed) (hdb : db.Sound s) {n m : Node} {r b : Row}
    (h : n.LoadedLike m) (hkey : n.key = m.key) (hn : n.StandsFor s db r) (hnr : n.Shows r)
    (hm : m.StandsFor s db b) (hmb : m.Shows b) : n.Like m := by
  obtain ⟨rfl, -⟩ := row_of_keyOf hs hdb hn.entity hm.entity hn.stored hm.stored
    (hn.key.symm.trans (hkey.trans hm.key))
  refine ⟨h.entity, fun field => ?_, h.references⟩
  have hsame := h.fields field
  cases hv : n.column? field with
  | none =>
    rw [hv] at hsame
    exact (Option.not_isSome_iff_eq_none.mp (by simp [← hsame])).symm
  | some v =>
    rw [hv] at hsame
    obtain ⟨w, hw⟩ := Option.isSome_iff_exists.mp hsame.symm
    obtain ⟨c, hc, hfield, rfl⟩ := hnr.shown field v hv
    obtain ⟨c', hc', hfield', rfl⟩ := hmb.shown field w hw
    rw [← h.entity] at hc'
    have hnames := (List.nodup_append.mp (hs.member_names _ hn.entity)).1
    rw [hw, List.inj_on_of_nodup_map hnames hc hc' (hfield.trans hfield'.symm)]

namespace Plan

variable {p : Plan} {js : List ResolvedJoin}

/-- The graphs that the matches of a plan load, each match alone. -/
def ownGraphs (s : Schema) (db : Database) (p : Plan) (js : List ResolvedJoin) : List Graph :=
  (p.matched db js).filterMap fun row => ((p.loadTree js).loadAll s {} [row]).toOption

theorem mem_ownGraphs {row : JoinedRow} (hrow : row ∈ p.matched db js)
    (hl : (p.loadTree js).loadAll s {} [row] = .ok g) : g ∈ p.ownGraphs s db js :=
  List.mem_filterMap.mpr ⟨row, hrow, by rw [hl]; rfl⟩

/-- The matches of a plan load entities alike: one that two of them bring has the same fields and the
same references when each of the two is read alone. -/
def LoadsAlike (s : Schema) (db : Database) (p : Plan) (js : List ResolvedJoin) : Prop :=
  ∀ g ∈ p.ownGraphs s db js, ∀ h ∈ p.ownGraphs s db js, ∀ x n m,
    g.node? x = some n → h.node? x = some m → n.LoadedLike m

/-- Matches load entities alike if they load the same names of them in the same order. -/
theorem loadsAlike_of_names (h : ∀ g ∈ p.ownGraphs s db js, ∀ i ∈ p.ownGraphs s db js,
    g.NamesAlike i) : p.LoadsAlike s db js := by
  intro g hg i hi x n m hn hm
  obtain ⟨hentity, hcolumns, hreferences⟩ := h g hg i hi n (List.mem_of_find?_eq_some hn) m
    (List.mem_of_find?_eq_some hm) ((Graph.key_of_node? hn).trans (Graph.key_of_node? hm).symm)
  exact ⟨hentity, isSome_lookup_congr hcolumns, fun name => by
    rw [Node.reference?, Node.reference?, hreferences]⟩

theorem bringsAlike_of_loadsAlike (hs : s.WellFormed) (hdb : db.Sound s)
    (hroot : p.root ∈ s.entities) (hst : Staged s p 0 js) (h : p.LoadsAlike s db js) :
    (p.loadTree js).BringsAlike s (p.matched db js) := by
  have hstored : ∀ row ∈ p.matched db js, ∀ g, (p.loadTree js).loadAll s {} [row] = .ok g →
      g.Stored s db := fun row hrow g hl =>
    LoadTree.loadAll_stored hs hdb (fun other ho => by
      cases List.mem_singleton.mp ho
      exact fills_loadTree hs hdb hroot hst hrow) Graph.stored_empty hl
  intro a ha b hb g i hg hi x n m hn hm
  obtain ⟨r, hnr, hnshows⟩ := hstored a ha g hg x n hn
  obtain ⟨r', hmr, hmshows⟩ := hstored b hb i hi x m hm
  exact (h g (mem_ownGraphs ha hg) i (mem_ownGraphs hb hi) x n m hn hm).like hs hdb
    ((Graph.key_of_node? hn).trans (Graph.key_of_node? hm).symm) hnr hnshows hmr hmshows

theorem refersOnly_loadTree (hs : s.WellFormed) (hroot : p.root ∈ s.entities)
    (hst : Staged s p 0 js) (hjs : ∀ j ∈ js, j.Single) : (p.loadTree js).RefersOnly := by
  intro e he
  obtain ⟨j, hj, rfl⟩ := (mem_edges_loadTree hst e).mp he
  have hfit := fitting_of_root hs hroot hst j hj
  exact hs.single_reference _ hfit.source _ hfit.relationship (hjs j hj).1

end Plan

namespace Repository

open Plan

variable {p : Plan} {js : List ResolvedJoin}

/-- The item of a loaded entity. -/
def itemOf (db : Database) (p : Plan) (h : Hydration) (g : Graph) (key : EntityKey) :
    Except QueryError Item :=
  match h with
  | .entities => entityItem g key
  | .records => (g.record (unfolding db p) key).map fun out => .record out.1

theorem hydrate_items (hindex : p.collectionIndex = []) {h : Hydration} {roots : List EntityKey}
    {items : List Item} (hh : hydrate db p h g roots = .ok items) :
    List.Forall₂ (fun k item => itemOf db p h g k = .ok item) roots items := by
  unfold hydrate at hh
  cases h with
  | entities => exact mapM_eq_ok_iff.mp hh
  | records =>
    obtain ⟨⟨vs, last⟩, hvs, rfl⟩ := ok_of_map hh
    have hsilent : Silent fun g k => g.record (unfolding db p) k :=
      fun g k v h hv => unfoldTo_silent hindex _ _ _ _ _ _ _ hv
    obtain ⟨-, hall⟩ := unfoldItems_eq_ok hsilent hvs
    rw [List.forall₂_map_right_iff]
    refine hall.imp fun k v hv => ?_
    unfold itemOf
    simp only [hv]
    rfl

/-- An entity gives the same item in a graph and in a part of it. -/
theorem itemOf_part (hpart : a.PartOf g) {k : EntityKey} (hk : a.Has k) (db : Database) (p : Plan)
    (h : Hydration) : ∃ item, itemOf db p h a k = .ok item ∧ itemOf db p h g k = .ok item := by
  cases h with
  | entities =>
    obtain ⟨v, hv, hv'⟩ := hpart.record hk ⟨fun _ _ => none, []⟩
    obtain ⟨n, hn⟩ := Option.isSome_iff_exists.mp hk
    obtain ⟨m, hm, hlike⟩ := hpart.like k n hn
    refine ⟨.entity n.entity.name k v, ?_, ?_⟩
    · simp only [itemOf, entityItem, hv, hn]
      rfl
    · simp only [itemOf, entityItem, hv', hm, hlike.entity]
      rfl
  | records =>
    obtain ⟨v, hv, hv'⟩ := hpart.record hk (unfolding db p)
    refine ⟨.record v, ?_, ?_⟩
    · simp only [itemOf, hv]
      rfl
    · simp only [itemOf, hv']
      rfl

/-- The item of the root of a row that is read alone. -/
def ownItem (s : Schema) (db : Database) (p : Plan) (js : List ResolvedJoin) (h : Hydration)
    (row : JoinedRow) : Except QueryError Item := do
  let g ← (p.loadTree js).loadAll s {} [row]
  itemOf db p h g (p.rootKey row)

/-- Among rows that bring entities alike, a row gives the item that it gives alone. -/
theorem itemOf_loadAll (hs : s.WellFormed) (hdb : db.Sound s) (hroot : p.root ∈ s.entities)
    (hst : Staged s p 0 js) (hjs : ∀ j ∈ js, j.Single) {rows : List JoinedRow}
    (hrows : ∀ row ∈ rows, row ∈ p.matched db js) (halike : p.LoadsAlike s db js)
    (hl : (p.loadTree js).loadAll s {} rows = .ok g) (h : Hydration) {row : JoinedRow}
    (hrow : row ∈ rows) :
    ∃ item, ownItem s db p js h row = .ok item ∧ itemOf db p h g (p.rootKey row) = .ok item := by
  -- the graph of the row alone is a part of the graph of all rows, as both refer to no collection
  have hone := refersOnly_loadTree hs hroot hst hjs
  have hbrings := bringsAlike_of_loadsAlike hs hdb hroot hst halike
  obtain ⟨⟨key, own⟩, hload⟩ := LoadTree.exists_load_of_loadAll hl row hrow
  have hown : (p.loadTree js).loadAll s {} [row] = .ok own := by
    rw [LoadTree.loadAll_singleton, hload]
    rfl
  have heach : LoadTree.HoldsEach s (p.loadTree js) ([] ++ rows) g :=
    LoadTree.loadAll_holdsEach hone LoadTree.holdsEach_nil
      (fun a ha b hb => hbrings a (hrows a ha) b (hrows b hb)) hl
  have hpart : own.PartOf g :=
    ⟨heach.held row hrow own hown, LoadTree.load_fits hone Graph.fits_empty hload,
      LoadTree.load_closed Graph.closed_empty hload⟩
  have hhas : own.Has (p.rootKey row) := LoadTree.loadAll_root hown List.mem_cons_self
    (key?_matched hs hdb hroot (hrows row hrow))
  obtain ⟨item, hitem, hitem'⟩ := itemOf_part hpart hhas db p h
  refine ⟨item, ?_, hitem'⟩
  unfold ownItem
  rw [hown]
  exact hitem

/-- Where joins follow references to single entities and the matches load entities alike, a fetch gives
for each row the item that it gives alone. -/
theorem load_ownItems (hs : s.WellFormed) (hdb : db.Sound s) (hroot : p.root ∈ s.entities)
    {o : Outline} (hst : p.Staged s 0 o.1) (hjs : ∀ j ∈ o.1, j.Single)
    (halike : p.LoadsAlike s db o.1) (hindex : p.collectionIndex = []) {roots : List EntityKey}
    (hl : load s db p o = .ok (roots, g)) {h : Hydration} {items : List Item}
    (hh : hydrate db p h g roots = .ok items) :
    List.Forall₂ (fun row item => ownItem s db p o.1 h row = .ok item)
      (within p.limit p.offset (p.sorted db o.1 o.2)) items := by
  have hrows : ∀ row ∈ within p.limit p.offset (p.sorted db o.1 o.2), row ∈ p.matched db o.1 :=
    fun row hrow => mem_sorted.mp (mem_within hrow)
  have hnodup : ((within p.limit p.offset (p.sorted db o.1 o.2)).map p.rootKey).Nodup :=
    (((within_sublist p.limit p.offset _).map _).nodup
      (((List.mergeSort_perm _ _).map _).nodup_iff.mpr (nodup_rootKeys hs hdb hroot hst hjs)))
  have hroots := load_roots hs hdb hroot hst hl
  rw [eraseDups_eq_self hnodup] at hroots
  rw [hroots] at hh
  have hall := (LoadTree.loadRows_eq_ok (loadRows_of_load hst hl)).1
  have hitems := List.forall₂_map_left_iff.mp (hydrate_items hindex hh)
  have hown : ∀ row ∈ within p.limit p.offset (p.sorted db o.1 o.2), ∀ item,
      itemOf db p h g (p.rootKey row) = .ok item → ownItem s db p o.1 h row = .ok item := by
    intro row hrow item hitem
    obtain ⟨own, howned, hsame⟩ := itemOf_loadAll hs hdb hroot hst hjs hrows halike hall h hrow
    rw [howned, ← hsame, hitem]
  exact ((List.forall₂_and_left _ _).mpr ⟨hown, hitems⟩).imp fun row item hboth => hboth.1 item hboth.2

end Repository
end EntityQuery
