import EntityQuery.Proofs.StoredNodes
/-!
Loading is sound: where the rows hold related rows at the two ends of each relationship, every
reference of the graph leads to related rows only, to each of them once, and to none only if there is
none.
-/
namespace EntityQuery

variable {s : Schema} {db : Database}

/-- A reference of a stored row leads to rows that are related to it. -/
def Reference.Exact (db : Database) (q : Relationship) (target : Entity) (r : Row) :
    Reference → Prop
  | .one none => q.many = false ∧ q.related db target r = []
  | .one (some k) => q.many = false ∧ ∃ y ∈ q.related db target r, k = target.keyOf y
  | .many ks => q.many = true ∧ ks.Nodup ∧ ∀ k ∈ ks, ∃ y ∈ q.related db target r, k = target.keyOf y

/-- A loaded entity stands for a stored row, and its fields and references are those of this row. -/
def Node.Exact (s : Schema) (db : Database) (n : Node) : Prop :=
  ∃ r, n.StandsFor s db r ∧ n.Shows r ∧ ∀ name ref, n.reference? name = some ref →
    ∃ q ∈ n.entity.relationships, q.name = name ∧
      ∃ target, s.entity? q.target = some target ∧ ref.Exact db q target r

/-- All loaded entities are exact. -/
def Graph.Exact (s : Schema) (db : Database) (g : Graph) : Prop :=
  ∀ x n, g.node? x = some n → n.Exact s db

/-- What a joined row holds at the two ends of a relationship. -/
structure Edge.Linked (s : Schema) (db : Database) (row : JoinedRow) (e : Edge) : Prop where
  relationship : e.relationship ∈ e.source.entity.relationships
  entity : s.entity? e.relationship.target = some e.target.entity
  target : row.HoldsAt s db e.target
  present : ∀ y, row.rowAt e.target.position = some y →
    ∃ r, row.rowAt e.source.position = some r ∧ y ∈ e.relationship.related db e.target.entity r
  absent : row.rowAt e.target.position = none → ∀ r, row.rowAt e.source.position = some r →
    e.relationship.related db e.target.entity r = []

/-- A joined row suits a load tree: it holds stored rows at all of its places, and related ones at
the two ends of its relationships. -/
structure JoinedRow.Suits (s : Schema) (db : Database) (row : JoinedRow) (t : LoadTree) : Prop where
  root : row.HoldsAt s db t.occurrence
  edge : ∀ e ∈ t.edges, e.Linked s db row

theorem Graph.exact_empty : Graph.Exact s db {} := fun x n h => by
  simp [Graph.node?] at h

theorem Graph.Exact.modify {g : Graph} (hg : g.Exact s db) {key : EntityKey} {f : Node → Node}
    (hf : ∀ n, (f n).key = n.key) (h : ∀ n, g.node? key = some n → (f n).Exact s db) :
    (g.modify key f).Exact s db := forall_modify hg hf h

theorem Graph.Exact.addColumns (hs : s.WellFormed) (hdb : db.Sound s) {g : Graph}
    (hg : g.Exact s db) {row : JoinedRow} {o : Occurrence} (ho : row.HoldsAt s db o) {r : Row}
    (hr : row.rowAt o.position = some r) (fields : List String) :
    (g.modify (o.entity.keyOf r) (·.addColumns (row.shownAt o fields))).Exact s db :=
  hg.modify (f := (·.addColumns (row.shownAt o fields))) (fun _ => rfl) fun n hn => by
    obtain ⟨a, ha, hshows, hrefs⟩ := hg _ n hn
    exact ⟨a, ha.addColumns _, hshows.addColumns hs hdb ha ho hr (key_of_node? hn) fields, hrefs⟩

theorem Graph.Exact.addLoaded (hs : s.WellFormed) (hdb : db.Sound s) {g : Graph} (hg : g.Exact s db)
    {row : JoinedRow} {o : Occurrence} (ho : row.HoldsAt s db o) {r : Row}
    (hr : row.rowAt o.position = some r) {m : Entity}
    (hm : memberEntity s o.entity ((List.lookup (.entity o.position) row).getD []) = .ok m)
    (fields : List String) :
    (g.add ⟨o.entity.keyOf r, m, row.shownAt o fields, []⟩).Exact s db := by
  obtain ⟨hn, hshows⟩ := shows_loaded hs hdb ho hr hm fields
  exact forall_add hg ⟨r, hn, hshows, fun name ref href => by simp [Node.reference?] at href⟩

theorem relationship_of_name (hs : s.WellFormed) {e : Entity} (he : e ∈ s.entities)
    {q q' : Relationship} (hq : q ∈ e.relationships) (hq' : q' ∈ e.relationships)
    (h : q.name = q'.name) : q = q' :=
  List.inj_on_of_nodup_map (List.nodup_append.mp (hs.member_names e he)).2.1 hq hq' h

theorem nodup_addItem {items : List EntityKey} (h : items.Nodup) (item : Option EntityKey) :
    (addItem items item).Nodup := by
  cases item with
  | none => exact h
  | some k =>
    by_cases hk : k ∈ items
    · simpa [addItem, hk] using h
    · simp only [addItem, List.contains_iff_mem, hk, if_false]
      exact List.nodup_append.mpr ⟨h, by simp, fun a ha b hb => by
        rw [List.mem_singleton.mp hb]
        exact fun e => hk (e ▸ ha)⟩

/-- A target that belongs into a relationship of a row. -/
def Fits (db : Database) (q : Relationship) (target : Entity) (r : Row) (k : Option EntityKey) :
    Prop :=
  match k with
  | none => q.related db target r = []
  | some k => ∃ y ∈ q.related db target r, k = target.keyOf y

theorem exact_addItem {q : Relationship} {target : Entity} {r : Row} {items : List EntityKey}
    {k : Option EntityKey} (hi : (Reference.many items).Exact db q target r)
    (hk : Fits db q target r k) : (Reference.many (addItem items k)).Exact db q target r := by
  obtain ⟨hmany, hnodup, hitems⟩ := hi
  refine ⟨hmany, nodup_addItem hnodup k, fun x hx => ?_⟩
  rcases Graph.mem_addItem.mp hx with hx | rfl
  · exact hitems x hx
  · exact hk

/-- Placing a target that belongs into a relationship keeps its reference exact. -/
theorem exact_furtherReference {q : Relationship} {target : Entity} {r : Row}
    {known : Option Reference} {k : Option EntityKey}
    (hknown : ∀ ref, known = some ref → ref.Exact db q target r) (hk : Fits db q target r k) :
    (furtherReference q known k).Exact db q target r := by
  cases known with
  | none =>
    unfold furtherReference firstReference
    by_cases hm : q.many = true
    · simp only [hm, if_true]
      exact exact_addItem ⟨hm, List.nodup_nil, fun _ h => absurd h List.not_mem_nil⟩ hk
    · simp only [hm]
      cases k with
      | none => exact ⟨by simpa using hm, hk⟩
      | some k => exact ⟨by simpa using hm, hk⟩
  | some ref =>
    cases ref with
    | one t => exact hknown _ rfl
    | many items => exact exact_addItem (hknown _ rfl) hk

/-- The target of a relationship in a row belongs into it. -/
theorem Edge.Linked.fits (hs : s.WellFormed) (hdb : db.Sound s) {row : JoinedRow} {e : Edge}
    (he : e.Linked s db row) {r : Row} (hr : row.rowAt e.source.position = some r) :
    Fits db e.relationship e.target.entity r (row.keyAt e.target) := by
  rw [JoinedRow.keyAt_eq hs hdb he.target]
  cases hy : row.rowAt e.target.position with
  | none => exact he.absent hy r hr
  | some y =>
    obtain ⟨r', hr', hrel⟩ := he.present y hy
    cases hr.symm.trans hr'
    exact ⟨y, hrel, rfl⟩

/-- A reference under the name of a relationship belongs to this relationship. -/
theorem Node.Exact.reference (hs : s.WellFormed) (hdb : db.Sound s) {n : Node}
    (hn : n.Exact s db) {row : JoinedRow} {o : Occurrence} (ho : row.HoldsAt s db o) {r : Row}
    (hr : row.rowAt o.position = some r) (hkey : n.key = o.entity.keyOf r) {q : Relationship}
    (hq : q ∈ o.entity.relationships) {target : Entity} (ht : s.entity? q.target = some target)
    {known : Reference} (hknown : n.reference? q.name = some known) :
    known.Exact db q target r := by
  obtain ⟨a, ha, -, hrefs⟩ := hn
  obtain ⟨rfl, -, hcovers⟩ := ha.covers hs hdb ho hr hkey
  obtain ⟨q', hq', hname, target', ht', hexact⟩ := hrefs q.name known hknown
  cases relationship_of_name hs ha.entity hq' (hcovers q hq) hname
  cases ht.symm.trans ht'
  exact hexact

/-- Setting an exact reference of a relationship that the occurrence of the entity has. -/
theorem Node.Exact.setReference (hs : s.WellFormed) (hdb : db.Sound s) {n : Node}
    (hn : n.Exact s db) {row : JoinedRow} {o : Occurrence} (ho : row.HoldsAt s db o) {r : Row}
    (hr : row.rowAt o.position = some r) (hkey : n.key = o.entity.keyOf r) {q : Relationship}
    (hq : q ∈ o.entity.relationships) {target : Entity} (ht : s.entity? q.target = some target)
    {ref : Reference} (href : ref.Exact db q target r) :
    (n.setReference q.name ref).Exact s db := by
  obtain ⟨a, ha, hshows, hrefs⟩ := hn
  obtain ⟨rfl, -, hcovers⟩ := ha.covers hs hdb ho hr hkey
  refine ⟨a, ⟨ha.entity, ha.stored, ha.key, ha.member⟩, ⟨hshows.shown, hshows.keys⟩,
    fun name other hother => ?_⟩
  rw [Node.reference?_setReference] at hother
  split at hother
  · rename_i hname
    cases hother
    exact ⟨q, hcovers q hq, hname.symm, target, ht, href⟩
  · exact hrefs name other hother

variable {row : JoinedRow} {o : Occurrence} {r : Row}

/-- Setting a reference of the entity that a row holds at an occurrence. -/
theorem Graph.Exact.setReference (hs : s.WellFormed) (hdb : db.Sound s) {g : Graph}
    (hg : g.Exact s db) (ho : row.HoldsAt s db o) (hr : row.rowAt o.position = some r)
    {q : Relationship} (hq : q ∈ o.entity.relationships) {target : Entity}
    (ht : s.entity? q.target = some target) {f : Node → Reference}
    (hf : ∀ n, (∀ known, n.reference? q.name = some known → known.Exact db q target r) →
      (f n).Exact db q target r) :
    (g.modify (o.entity.keyOf r) fun n => n.setReference q.name (f n)).Exact s db :=
  hg.modify (fun _ => rfl) fun n hn =>
    (hg _ n hn).setReference hs hdb ho hr (key_of_node? hn) hq ht (hf n fun _ hk =>
      (hg _ n hn).reference hs hdb ho hr (key_of_node? hn) hq ht hk)

theorem Graph.Exact.opened (hs : s.WellFormed) (hdb : db.Sound s) {g : Graph}
    (hg : g.Exact s db) (ho : row.HoldsAt s db o) (hr : row.rowAt o.position = some r)
    {q : Relationship} (hq : q ∈ o.entity.relationships) {target : Entity}
    (ht : s.entity? q.target = some target) (isNew : Bool) :
    (g.opened (o.entity.keyOf r) isNew q).Exact s db := by
  unfold Graph.opened
  split
  · rename_i hmany
    rw [Bool.and_eq_true] at hmany
    exact Graph.Exact.setReference hs hdb hg ho hr hq ht (f := fun _ => .many []) fun _ _ =>
      ⟨hmany.2, List.nodup_nil, fun _ h => absurd h List.not_mem_nil⟩
  · exact hg

theorem Graph.Exact.placed (hs : s.WellFormed) (hdb : db.Sound s) {g : Graph}
    (hg : g.Exact s db) {e : Edge} (he : e.Linked s db row)
    (ho : row.HoldsAt s db e.source) (hr : row.rowAt e.source.position = some r) (isNew : Bool) :
    (g.placed (e.source.entity.keyOf r) isNew e.relationship (row.keyAt e.target)).Exact s db := by
  refine Graph.Exact.setReference hs hdb hg ho hr he.relationship he.entity fun n hknown =>
    exact_furtherReference (fun ref href => ?_) (he.fits hs hdb hr)
  split at href
  · cases href
  · exact hknown ref href

namespace LoadTree

mutual

/-- Loading a row that suits the tree keeps a graph exact. -/
theorem load_exact (hs : s.WellFormed) (hdb : db.Sound s) {t : LoadTree} {g h : Graph}
    {key : Option EntityKey} (hsuits : row.Suits s db t) (hg : g.Exact s db)
    (hl : t.load s row g = .ok (key, h)) : h.Exact s db := by
  obtain ⟨o, fields, cs⟩ := t
  have ho : row.HoldsAt s db o := hsuits.root
  rcases load_eq_ok hl with ⟨-, -, rfl⟩ |
    ⟨k, hk, -, ⟨-, hbelow⟩ | ⟨member, -, hm, hbelow⟩⟩
  · exact hg
  · obtain ⟨r, hr, rfl⟩ := JoinedRow.rowAt_of_keyAt hs hdb ho hk
    exact loadBelow_exact hs hdb ho hr hsuits.edge (hg.addColumns hs hdb ho hr fields) hbelow
  · obtain ⟨r, hr, rfl⟩ := JoinedRow.rowAt_of_keyAt hs hdb ho hk
    exact loadBelow_exact hs hdb ho hr hsuits.edge (hg.addLoaded hs hdb ho hr hm fields) hbelow

/-- Loading a row below an entity keeps a graph exact. -/
theorem loadBelow_exact (hs : s.WellFormed) (hdb : db.Sound s)
    {cs : List (Relationship × LoadTree)} {o : Occurrence} {r : Row} {isNew : Bool} {g h : Graph}
    (ho : row.HoldsAt s db o) (hr : row.rowAt o.position = some r)
    (hedges : ∀ e ∈ edgesBelow o cs, e.Linked s db row) (hg : g.Exact s db)
    (hl : loadBelow s row (o.entity.keyOf r) isNew g cs = .ok h) : h.Exact s db := by
  cases cs with
  | nil =>
    cases hl
    exact hg
  | cons c rest =>
    obtain ⟨q, t⟩ := c
    obtain ⟨i, hi, hrest⟩ := loadBelow_cons_eq_ok hl
    obtain ⟨hedge, hbelow, hlater⟩ := forall_edgesBelow_cons.mp hedges
    have hopen := hg.opened hs hdb ho hr hedge.relationship hedge.entity isNew
    have hload : i.Exact s db := load_exact hs hdb ⟨hedge.target, hbelow⟩ hopen hi
    exact loadBelow_exact hs hdb ho hr hlater (hload.placed hs hdb hedge ho hr isNew) hrest

end

end LoadTree
end EntityQuery
