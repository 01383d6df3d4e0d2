import EntityQuery.Proofs.Loading
/-!
What loaded entities show. Whatever the joins are, an entity that is loaded from rows of tables stands
for one of these rows, and its fields show the cells of this row, those of the key among them.
-/
namespace EntityQuery

variable {s : Schema} {db : Database}

theorem JoinedRow.shownAt_of_rowAt {row : JoinedRow} {o : Occurrence} {r : Row}
    (hr : row.rowAt o.position = some r) (fields : List String) :
    row.shownAt o fields = shownColumns (LoadTree.loadedColumns o.entity fields) r := by
  unfold shownAt
  rw [show List.lookup (Owner.entity o.position) row = some r from hr]
  rfl

theorem Node.StandsFor.addColumns {n : Node} {r : Row} (h : n.StandsFor s db r)
    (columns : List (String × Value)) : (n.addColumns columns).StandsFor s db r :=
  ⟨h.entity, h.stored, h.key, h.member⟩

theorem Node.StandsFor.setReference {n : Node} {r : Row} (h : n.StandsFor s db r) (name : String)
    (ref : Reference) : (n.setReference name ref).StandsFor s db r :=
  ⟨h.entity, h.stored, h.key, h.member⟩

theorem Node.Shows.setReference {n : Node} {r : Row} (h : n.Shows r) (name : String)
    (ref : Reference) : (n.setReference name ref).Shows r := ⟨h.shown, h.keys⟩

theorem Node.Shows.addColumns (hs : s.WellFormed) (hdb : db.Sound s) {n : Node} {r : Row}
    (hshows : n.Shows r) (hn : n.StandsFor s db r) {row : JoinedRow} {o : Occurrence}
    (ho : row.HoldsAt s db o) {a : Row} (ha : row.rowAt o.position = some a)
    (hkey : n.key = o.entity.keyOf a) (fields : List String) :
    (n.addColumns (row.shownAt o fields)).Shows r := by
  obtain ⟨rfl, -⟩ := hn.covers hs hdb ho ha hkey
  rw [JoinedRow.shownAt_of_rowAt ha]
  refine Node.Shows.extend hs hdb hn ho ha hkey fields rfl (fun field v hv => ?_)
    fun field hf => ?_
  · rw [Node.column?_addColumns] at hv
    cases hc : n.column? field with
    | some w =>
      rw [hc] at hv
      exact .inl ⟨hshows, hv⟩
    | none =>
      rw [hc, Option.none_or] at hv
      exact .inr hv
  · rw [Node.column?_addColumns]
    cases n.column? field with
    | some w => rfl
    | none => simpa using hf

theorem shows_loaded (hs : s.WellFormed) (hdb : db.Sound s) {row : JoinedRow} {o : Occurrence}
    (ho : row.HoldsAt s db o) {r : Row} (hr : row.rowAt o.position = some r) {m : Entity}
    (hm : memberEntity s o.entity ((List.lookup (.entity o.position) row).getD []) = .ok m)
    (fields : List String) :
    Node.StandsFor s db ⟨o.entity.keyOf r, m, row.shownAt o fields, []⟩ r ∧
      Node.Shows ⟨o.entity.keyOf r, m, row.shownAt o fields, []⟩ r := by
  rw [show List.lookup (Owner.entity o.position) row = some r from hr] at hm
  rw [JoinedRow.shownAt_of_rowAt hr]
  have hn : Node.StandsFor s db
      ⟨o.entity.keyOf r, m, shownColumns (LoadTree.loadedColumns o.entity fields) r, []⟩ r :=
    standsFor_loaded hs ho.entity (ho.stored r hr) hm rfl rfl
  exact ⟨hn, Node.Shows.extend hs hdb hn ho hr rfl fields rfl (fun _ _ hv => .inr hv)
    fun _ hf => hf⟩

/-- All loaded entities stand for stored rows and show them. -/
def Graph.Stored (s : Schema) (db : Database) (g : Graph) : Prop :=
  ∀ x n, g.node? x = some n → ∃ r, n.StandsFor s db r ∧ n.Shows r

theorem Graph.stored_empty : Graph.Stored s db {} := fun x n h => by
  simp [Graph.node?] at h

theorem Graph.Stored.setReference {g : Graph} (hg : g.Stored s db) (key : EntityKey) (name : String)
    (f : Node → Reference) : (g.modify key fun n => n.setReference name (f n)).Stored s db :=
  forall_modify hg (fun _ => rfl) fun n hn => by
    obtain ⟨r, hstands, hshows⟩ := hg _ n hn
    exact ⟨r, hstands.setReference _ _, hshows.setReference _ _⟩

theorem Graph.Stored.opened {g : Graph} (hg : g.Stored s db) (key : EntityKey) (isNew : Bool)
    (q : Relationship) : (g.opened key isNew q).Stored s db := by
  unfold Graph.opened
  split
  · exact hg.setReference key q.name fun _ => .many []
  · exact hg

theorem Graph.keeps_opened (g : Graph) (key : EntityKey) (isNew : Bool) (q : Relationship) :
    g.Keeps (g.opened key isNew q) := by
  unfold Graph.opened
  split
  · exact Graph.keeps_modify (fun _ => rfl) (fun _ => rfl) fun _ _ _ _ h => h
  · exact .refl g

/-- A joined row holds stored rows at all places of a load tree. -/
structure JoinedRow.Fills (s : Schema) (db : Database) (row : JoinedRow) (t : LoadTree) : Prop where
  root : row.HoldsAt s db t.occurrence
  edge : ∀ e ∈ t.edges, row.HoldsAt s db e.target

namespace LoadTree

variable {row : JoinedRow}

mutual

/-- Loading stored rows gives entities that stand for them. -/
theorem load_stored (hs : s.WellFormed) (hdb : db.Sound s) {t : LoadTree} {g h : Graph}
    {key : Option EntityKey} (hfills : row.Fills s db t) (hg : g.Stored s db)
    (hl : t.load s row g = .ok (key, h)) : h.Stored s db := by
  obtain ⟨o, fields, cs⟩ := t
  have ho : row.HoldsAt s db o := hfills.root
  rcases load_eq_ok hl with ⟨-, -, rfl⟩ |
    ⟨k, hk, -, ⟨-, hbelow⟩ | ⟨member, -, hm, hbelow⟩⟩
  · exact hg
  · obtain ⟨r, hr, rfl⟩ := JoinedRow.rowAt_of_keyAt hs hdb ho hk
    refine loadBelow_stored hs hdb hfills.edge ?_ hbelow
    refine Graph.forall_modify (f := (·.addColumns (row.shownAt o fields))) hg (fun _ => rfl)
      fun n hn => ?_
    obtain ⟨a, hstands, hshows⟩ := hg _ n hn
    exact ⟨a, hstands.addColumns _,
      hshows.addColumns hs hdb hstands ho hr (Graph.key_of_node? hn) fields⟩
  · obtain ⟨r, hr, rfl⟩ := JoinedRow.rowAt_of_keyAt hs hdb ho hk
    exact loadBelow_stored hs hdb hfills.edge
      (Graph.forall_add hg ⟨r, shows_loaded hs hdb ho hr hm fields⟩) hbelow

theorem loadBelow_stored (hs : s.WellFormed) (hdb : db.Sound s) {o : Occurrence}
    {cs : List (Relationship × LoadTree)} {key : EntityKey} {isNew : Bool} {g h : Graph}
    (hedges : ∀ e ∈ edgesBelow o cs, row.HoldsAt s db e.target) (hg : g.Stored s db)
    (hl : loadBelow s row key isNew g cs = .ok h) : h.Stored s db := by
  cases cs with
  | nil =>
    cases hl
    exact hg
  | cons c rest =>
    obtain ⟨q, t⟩ := c
    obtain ⟨i, hi, hrest⟩ := loadBelow_cons_eq_ok hl
    obtain ⟨htarget, hbelow, hlater⟩ := forall_edgesBelow_cons.mp hedges
    have hload : i.Stored s db :=
      load_stored hs hdb ⟨htarget, hbelow⟩ (hg.opened key isNew q) hi
    exact loadBelow_stored hs hdb hlater (hload.setReference key q.name _) hrest

end

mutual

theorem load_keepsFields {t : LoadTree} {g h : Graph} {key : Option EntityKey}
    (hl : t.load s row g = .ok (key, h)) : g.Keeps h := by
  obtain ⟨o, fields, cs⟩ := t
  rcases load_eq_ok hl with ⟨-, -, rfl⟩ | ⟨k, -, -, ⟨-, hbelow⟩ | ⟨member, -, -, hbelow⟩⟩
  · exact .refl _
  · refine Graph.Keeps.trans (Graph.keeps_modify (f := (·.addColumns (row.shownAt o fields)))
      (fun _ => rfl) (fun _ => rfl) ?_) (loadBelow_keepsFields hbelow)
    intro n _ field v hv
    rw [Node.column?_addColumns, hv]
    rfl
  · exact (Graph.keeps_add g _).trans (loadBelow_keepsFields hbelow)

theorem loadBelow_keepsFields {cs : List (Relationship × LoadTree)} {key : EntityKey} {isNew : Bool}
    {g h : Graph} (hl : loadBelow s row key isNew g cs = .ok h) : g.Keeps h := by
  cases cs with
  | nil =>
    cases hl
    exact .refl _
  | cons c rest =>
    obtain ⟨q, t⟩ := c
    obtain ⟨i, hi, hrest⟩ := loadBelow_cons_eq_ok hl
    have hplace : i.Keeps (i.placed key isNew q (row.keyAt t.occurrence)) :=
      Graph.keeps_modify (fun _ => rfl) (fun _ => rfl) fun _ _ _ _ h => h
    exact (((Graph.keeps_opened g key isNew q).trans (load_keepsFields hi)).trans hplace).trans
      (loadBelow_keepsFields hrest)

end

end LoadTree
end EntityQuery
