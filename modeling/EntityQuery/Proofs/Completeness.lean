import EntityQuery.Proofs.Exactness
/-!
Loading is complete: what a row brings at the end of a collection is an item of this collection
afterwards. Only while an entity is new can an item be lost again, when a collection is opened that
was filled further down in the same row; then another place of the row fills it anew.
-/
namespace EntityQuery

variable {s : Schema} {db : Database}

theorem Graph.mem_items_placed (hs : s.WellFormed) (hdb : db.Sound s) {g : Graph}
    (hg : g.Exact s db) {row : JoinedRow} {o : Occurrence} (ho : row.HoldsAt s db o) {r : Row}
    (hr : row.rowAt o.position = some r) (hhas : g.Has (o.entity.keyOf r)) {q : Relationship}
    (hq : q ∈ o.entity.relationships) {target : Entity} (ht : s.entity? q.target = some target)
    {isNew : Bool} (hnew : isNew = true ∨ q.many = true) (y : EntityKey) :
    y ∈ (g.placed (o.entity.keyOf r) isNew q (some y)).items (o.entity.keyOf r) q.name := by
  obtain ⟨n, hn, href⟩ : ∃ n, g.node? (o.entity.keyOf r) = some n ∧
      (g.placed (o.entity.keyOf r) isNew q (some y)).reference? (o.entity.keyOf r) q.name =
        some (placedReference isNew q (some y) n) := reference?_placed hhas
  unfold Graph.items
  rw [href]
  simp only [Option.map_some, Option.getD_some, placedReference]
  by_cases hm : q.many = true
  · simp only [hm, Bool.not_true, Bool.and_false, Bool.false_eq_true, if_false]
    cases hknown : n.reference? q.name with
    | none => simp [furtherReference, firstReference, hm, Reference.items, addItem]
    | some known =>
      have hexact := (hg _ n hn).reference hs hdb ho hr (key_of_node? hn) hq ht hknown
      cases known with
      | one t =>
        cases t with
        | none => exact absurd hm (by simp [hexact.1])
        | some k => exact absurd hm (by simp [hexact.1])
      | many ks => exact mem_addItem.mpr (.inr rfl)
  · have hn : isNew = true := hnew.resolve_right hm
    simp [hn, hm, furtherReference, firstReference, Reference.items]

/-- Some relationship of this name starts at the entity in a row, and what the row brings at its end
is an item afterwards. -/
def Kept (row : JoinedRow) (h : Graph) (edges : List Edge) (x : EntityKey) (name : String) : Prop :=
  ∃ e ∈ edges, row.keyAt e.source = some x ∧ e.relationship.name = name ∧
    ∀ y, row.keyAt e.target = some y → y ∈ h.items x name

theorem Kept.mono {row : JoinedRow} {g h : Graph} {edges all : List Edge} {x : EntityKey}
    {name : String} (hk : Kept row g edges x name) (hsub : ∀ e ∈ edges, e ∈ all)
    (hgrows : ∀ y ∈ g.items x name, y ∈ h.items x name) : Kept row h all x name := by
  obtain ⟨e, he, hsource, hname, hitems⟩ := hk
  exact ⟨e, hsub e he, hsource, hname, fun y hy => hgrows y (hitems y hy)⟩

namespace LoadTree

variable {row : JoinedRow}

mutual

/-- Where a row holds nothing at the root of a load tree, it holds nothing below. -/
theorem absent_edges {t : LoadTree} (hedges : ∀ e ∈ t.edges, e.Linked s db row)
    (hnone : row.rowAt t.occurrence.position = none) :
    ∀ e ∈ t.edges, row.rowAt e.source.position = none := by
  obtain ⟨o, fields, cs⟩ := t
  exact absent_edgesBelow hedges hnone

theorem absent_edgesBelow {o : Occurrence} {cs : List (Relationship × LoadTree)}
    (hedges : ∀ e ∈ edgesBelow o cs, e.Linked s db row)
    (hnone : row.rowAt o.position = none) :
    ∀ e ∈ edgesBelow o cs, row.rowAt e.source.position = none := by
  cases cs with
  | nil => exact fun _ h => absurd h List.not_mem_nil
  | cons c rest =>
    obtain ⟨q, t⟩ := c
    obtain ⟨hedge, hbelow, hlater⟩ := forall_edgesBelow_cons.mp hedges
    have htarget : row.rowAt t.occurrence.position = none := by
      cases ht : row.rowAt t.occurrence.position with
      | none => rfl
      | some y =>
        obtain ⟨r, hr, -⟩ := hedge.present y ht
        exact absurd (hnone.symm.trans hr) nofun
    exact forall_edgesBelow_cons.mpr
      ⟨hnone, absent_edges hbelow htarget, absent_edgesBelow hlater hnone⟩

end

theorem keyAt_none_of_rowAt {o : Occurrence} (h : row.rowAt o.position = none) :
    row.keyAt o = none := by
  unfold JoinedRow.keyAt
  rw [show List.lookup (Owner.entity o.position) row = none from h]
  have hnull : (o.entity.keyColumns.map fun c => Row.get [] c.name).all Cell.isNull = true := by
    simp [Row.get, Cell.isNull]
  simp only [Option.getD_none, entityKey?, hnull, if_true]

theorem exists_rowAt {o : Occurrence} {x : EntityKey} (h : row.keyAt o = some x) :
    ∃ r, row.rowAt o.position = some r := by
  cases hr : row.rowAt o.position with
  | none =>
    rw [keyAt_none_of_rowAt hr] at h
    cases h
  | some r => exact ⟨r, rfl⟩

/-- A new entity keeps what the row brings at the last of its relationships under a name. -/
theorem loadBelow_keeps (hs : s.WellFormed) (hdb : db.Sound s)
    {cs : List (Relationship × LoadTree)} {o : Occurrence} {r : Row} {g h : Graph}
    (ho : row.HoldsAt s db o) (hr : row.rowAt o.position = some r)
    (hedges : ∀ e ∈ edgesBelow o cs, e.Linked s db row) (hg : g.Exact s db)
    (hhas : g.Has (o.entity.keyOf r)) (hl : loadBelow s row (o.entity.keyOf r) true g cs = .ok h)
    {name : String} (hname : name ∈ cs.map (·.1.name)) :
    Kept row h (edgesBelow o cs) (o.entity.keyOf r) name := by
  induction cs generalizing g with
  | nil => cases hname
  | cons c rest ih =>
    obtain ⟨q, t⟩ := c
    obtain ⟨i, hi, hrest⟩ := loadBelow_cons_eq_ok hl
    obtain ⟨hedge, hbelow, hrestEdges⟩ := forall_edgesBelow_cons.mp hedges
    have hopen := hg.opened hs hdb ho hr hedge.relationship hedge.entity true
    have hload : i.Exact s db := load_exact hs hdb ⟨hedge.target, hbelow⟩ hopen hi
    have hihas : i.Has (o.entity.keyOf r) :=
      (load_grows hi).1.has _ ((Graph.has_opened _).mpr hhas)
    have hplace := hload.placed hs hdb hedge ho hr true
    have hphas : (i.placed (o.entity.keyOf r) true q (row.keyAt t.occurrence)).Has
        (o.entity.keyOf r) := (Graph.has_placed _).mpr hihas
    by_cases hlater : name ∈ rest.map (·.1.name)
    · exact (ih hrestEdges hplace hphas hrest hlater).mono (fun e he => by simp [he])
        fun _ h => h
    · have hq : name = q.name := by
        rcases List.mem_cons.mp hname with h | h
        · exact h
        · exact absurd h hlater
      refine ⟨⟨o, q, t.occurrence⟩, by simp, JoinedRow.keyAt_of_rowAt hs hdb ho hr, hq.symm,
        fun y hy => ?_⟩
      have hy' : row.keyAt t.occurrence = some y := hy
      refine (loadBelow_grows hphas hrest).items _ _ (fun hf => hlater hf.2.2) y ?_
      rw [hq, hy']
      exact Graph.mem_items_placed hs hdb hload ho hr hihas hedge.relationship hedge.entity
        (.inl rfl) y

mutual

/-- What a row brings at the end of a collection is an item of it afterwards, unless the entity was
new; then this holds at another place of the row. -/
theorem load_complete (hs : s.WellFormed) (hdb : db.Sound s) {t : LoadTree} {g h : Graph}
    {key : Option EntityKey} (hsuits : row.Suits s db t) (hg : g.Exact s db)
    (hl : t.load s row g = .ok (key, h)) {e : Edge} (he : e ∈ t.edges)
    (hmany : e.relationship.many = true) {x y : EntityKey} (hx : row.keyAt e.source = some x)
    (hy : row.keyAt e.target = some y) :
    y ∈ h.items x e.relationship.name ∨
      (¬ g.Has x ∧ Kept row h t.edges x e.relationship.name) := by
  obtain ⟨o, fields, cs⟩ := t
  have ho : row.HoldsAt s db o := hsuits.root
  rcases load_eq_ok hl with ⟨hk, -, rfl⟩ |
    ⟨k, hk, -, ⟨hhas, hbelow⟩ | ⟨member, hnew, hm, hbelow⟩⟩
  · have hnone := absent_edgesBelow hsuits.edge (JoinedRow.rowAt_of_keyAt_none hs hdb ho hk) e he
    obtain ⟨r, hr⟩ := exists_rowAt hx
    exact absurd (hnone.symm.trans hr) nofun
  · obtain ⟨r, hr, rfl⟩ := JoinedRow.rowAt_of_keyAt hs hdb ho hk
    rcases loadBelow_complete hs hdb ho hr hsuits.edge (hg.addColumns hs hdb ho hr fields)
      ((Graph.has_addColumns g _ _ _).mpr hhas) hbelow he hmany hx hy with h | ⟨hn, hkept⟩
    · exact .inl h
    · refine .inr ⟨fun hgx => ?_, hkept⟩
      rcases hn with ⟨hf, -⟩ | hn
      · cases hf
      · exact hn ((Graph.has_addColumns g _ _ _).mpr hgx)
  · obtain ⟨r, hr, rfl⟩ := JoinedRow.rowAt_of_keyAt hs hdb ho hk
    rcases loadBelow_complete hs hdb ho hr hsuits.edge (hg.addLoaded hs hdb ho hr hm fields)
      ((Graph.has_add g _ _).mpr (.inr rfl)) hbelow he hmany hx hy with h | ⟨hn, hkept⟩
    · exact .inl h
    · refine .inr ⟨fun hgx => ?_, hkept⟩
      rcases hn with ⟨-, rfl⟩ | hn
      · exact hnew hgx
      · exact hn ((Graph.has_add g _ _).mpr (.inl hgx))

theorem loadBelow_complete (hs : s.WellFormed) (hdb : db.Sound s)
    {cs : List (Relationship × LoadTree)} {o : Occurrence} {r : Row} {isNew : Bool} {g h : Graph}
    (ho : row.HoldsAt s db o) (hr : row.rowAt o.position = some r)
    (hedges : ∀ e ∈ edgesBelow o cs, e.Linked s db row) (hg : g.Exact s db)
    (hhas : g.Has (o.entity.keyOf r)) (hl : loadBelow s row (o.entity.keyOf r) isNew g cs = .ok h)
    {e : Edge} (he : e ∈ edgesBelow o cs) (hmany : e.relationship.many = true) {x y : EntityKey}
    (hx : row.keyAt e.source = some x) (hy : row.keyAt e.target = some y) :
    y ∈ h.items x e.relationship.name ∨
      ((isNew = true ∧ x = o.entity.keyOf r ∨ ¬ g.Has x) ∧
        Kept row h (edgesBelow o cs) x e.relationship.name) := by
  -- what may be lost is brought anew by the last relationship of this name
  by_cases hlost : Forgets isNew (o.entity.keyOf r) cs x e.relationship.name
  · obtain ⟨rfl, rfl, hname⟩ := hlost
    exact .inr ⟨.inl ⟨rfl, rfl⟩, loadBelow_keeps hs hdb ho hr hedges hg hhas hl hname⟩
  cases cs with
  | nil => cases he
  | cons c rest =>
    obtain ⟨q, t⟩ := c
    obtain ⟨i, hi, hrest⟩ := loadBelow_cons_eq_ok hl
    obtain ⟨hedge, hbelow, hrestEdges⟩ := forall_edgesBelow_cons.mp hedges
    have hopen := hg.opened hs hdb ho hr hedge.relationship hedge.entity isNew
    have hsuits : row.Suits s db t := ⟨hedge.target, hbelow⟩
    have hload : i.Exact s db := load_exact hs hdb hsuits hopen hi
    have hihas : i.Has (o.entity.keyOf r) :=
      (load_grows hi).1.has _ ((Graph.has_opened _).mpr hhas)
    have hplace := hload.placed hs hdb hedge ho hr isNew
    have hphas : (i.placed (o.entity.keyOf r) isNew q (row.keyAt t.occurrence)).Has
        (o.entity.keyOf r) := (Graph.has_placed _).mpr hihas
    have hafter : ∀ z ∈ (i.placed (o.entity.keyOf r) isNew q (row.keyAt t.occurrence)).items x
        e.relationship.name, z ∈ h.items x e.relationship.name :=
      (loadBelow_grows hphas hrest).items x _ fun hf =>
        hlost ⟨hf.1, hf.2.1, List.mem_cons_of_mem _ hf.2.2⟩
    have hgrow : Graph.Grows (Forgets isNew (o.entity.keyOf r) ((q, t) :: rest)) i
        (i.placed (o.entity.keyOf r) isNew q (row.keyAt t.occurrence)) :=
      Graph.grows_placed hihas fun hn => ⟨hn, rfl, by simp⟩
    have hlater : ∀ z ∈ i.items x e.relationship.name, z ∈ h.items x e.relationship.name :=
      fun z hz => hafter z (hgrow.items x _ hlost z hz)
    rcases mem_edgesBelow_cons.mp he with rfl | he | he
    · have hx' : row.keyAt o = some x := hx
      cases hx'.symm.trans (JoinedRow.keyAt_of_rowAt hs hdb ho hr)
      have hy' : row.keyAt t.occurrence = some y := hy
      refine .inl (hafter y ?_)
      rw [hy']
      exact Graph.mem_items_placed hs hdb hload ho hr hihas hedge.relationship hedge.entity
        (.inr hmany) y
    · rcases load_complete hs hdb hsuits hopen hi he hmany hx hy with h | ⟨hn, hkept⟩
      · exact .inl (hlater y h)
      · exact .inr ⟨.inr fun hgx => hn ((Graph.has_opened x).mpr hgx),
          hkept.mono (fun e he => by simp [he]) hlater⟩
    · rcases loadBelow_complete hs hdb ho hr hrestEdges hplace hphas hrest he hmany hx hy with
        h | ⟨hn, hkept⟩
      · exact .inl h
      · refine .inr ⟨?_, hkept.mono (fun e he => by simp [he]) fun _ h => h⟩
        exact hn.imp id fun hn hgx => hn ((Graph.has_placed x).mpr
          ((load_grows hi).1.has x ((Graph.has_opened x).mpr hgx)))

end

mutual

/-- Each relationship of a present entity is loaded, and the target of the row is in the graph. -/
theorem load_reaches (hs : s.WellFormed) (hdb : db.Sound s) {t : LoadTree} {g h : Graph}
    {key : Option EntityKey} (hsuits : row.Suits s db t) (hl : t.load s row g = .ok (key, h))
    {e : Edge} (he : e ∈ t.edges) {x : EntityKey} (hx : row.keyAt e.source = some x) :
    (h.reference? x e.relationship.name).isSome = true ∧
      ∀ y, row.keyAt e.target = some y → h.Has y := by
  obtain ⟨o, fields, cs⟩ := t
  have ho : row.HoldsAt s db o := hsuits.root
  rcases load_eq_ok hl with ⟨hk, -, rfl⟩ |
    ⟨k, hk, -, ⟨hhas, hbelow⟩ | ⟨member, hnew, hm, hbelow⟩⟩
  · have hnone := absent_edgesBelow hsuits.edge (JoinedRow.rowAt_of_keyAt_none hs hdb ho hk) e he
    obtain ⟨r, hr⟩ := exists_rowAt hx
    exact absurd (hnone.symm.trans hr) nofun
  · exact loadBelow_reaches hs hdb hk hsuits.edge
      ((Graph.has_addColumns g k k _).mpr hhas) hbelow he hx
  · exact loadBelow_reaches hs hdb hk hsuits.edge
      ((Graph.has_add g ⟨k, member, row.shownAt o fields, []⟩ k).mpr (.inr rfl)) hbelow he hx

theorem loadBelow_reaches (hs : s.WellFormed) (hdb : db.Sound s)
    {cs : List (Relationship × LoadTree)} {o : Occurrence} {k : EntityKey} {isNew : Bool}
    {g h : Graph} (hk : row.keyAt o = some k) (hedges : ∀ e ∈ edgesBelow o cs, e.Linked s db row)
    (hhas : g.Has k) (hl : loadBelow s row k isNew g cs = .ok h) {e : Edge}
    (he : e ∈ edgesBelow o cs) {x : EntityKey} (hx : row.keyAt e.source = some x) :
    (h.reference? x e.relationship.name).isSome = true ∧
      ∀ y, row.keyAt e.target = some y → h.Has y := by
  cases cs with
  | nil => cases he
  | cons c rest =>
    obtain ⟨q, t⟩ := c
    obtain ⟨i, hi, hrest⟩ := loadBelow_cons_eq_ok hl
    obtain ⟨hedge, hedges, hrestEdges⟩ := forall_edgesBelow_cons.mp hedges
    have hload := load_grows hi
    have hihas : i.Has k := hload.1.has k ((Graph.has_opened k).mpr hhas)
    have hplace : Graph.Grows (Forgets isNew k ((q, t) :: rest)) i
        (i.placed k isNew q (row.keyAt t.occurrence)) :=
      Graph.grows_placed hihas fun hn => ⟨hn, rfl, by simp⟩
    have hphas := hplace.has k hihas
    have hbelow := loadBelow_grows hphas hrest
    rcases mem_edgesBelow_cons.mp he with rfl | he | he
    · cases hk.symm.trans hx
      obtain ⟨n, -, href⟩ : ∃ n, i.node? k = some n ∧
          (i.placed k isNew q (row.keyAt t.occurrence)).reference? k q.name =
            some (Graph.placedReference isNew q (row.keyAt t.occurrence) n) :=
        Graph.reference?_placed hihas
      refine ⟨hbelow.loaded k q.name (by simp [href]), fun y hy => ?_⟩
      exact hbelow.has y (hplace.has y (hload.2 y hy))
    · obtain ⟨hloaded, hhasy⟩ := load_reaches hs hdb ⟨hedge.target, hedges⟩ hi he hx
      exact ⟨hbelow.loaded _ _ (hplace.loaded _ _ hloaded), fun y hy =>
        hbelow.has y (hplace.has y (hhasy y hy))⟩
    · exact loadBelow_reaches hs hdb hk hrestEdges hphas hrest he hx

end

end LoadTree
end EntityQuery
