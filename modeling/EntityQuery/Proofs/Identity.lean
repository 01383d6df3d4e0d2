import Mathlib.Data.List.Nodup
import EntityQuery.Proofs.EagerRows
import EntityQuery.Proofs.Graphs
/-!
Identities of stored rows. All entities of a family read the same key from a row, and the entity that
a row is loaded as has all columns and relationships of the occurrence that it is found at.
-/
namespace EntityQuery

/-- The identity that an entity reads from a row. -/
def Entity.keyOf (e : Entity) (r : Row) : EntityKey :=
  ⟨e.rootName, e.keyColumns.map fun c => r.get c.name⟩

variable {s : Schema} {db : Database}

theorem keyColumns_of_table (hs : s.WellFormed) {e m : Entity} (he : e ∈ s.entities)
    (hm : m ∈ s.entities) (h : e.table = m.table) : e.keyColumns = m.keyColumns := by
  obtain ⟨t, ht, hte, -, hk⟩ := hs.stored e he
  obtain ⟨u, hu, hum, -, hk'⟩ := hs.stored m hm
  have htu : t = u := List.inj_on_of_nodup_map hs.table_names ht hu (by rw [hte, hum, h])
  rw [hk, hk', htu]

theorem keyOf_of_rootName (hs : s.WellFormed) {e m : Entity} (he : e ∈ s.entities)
    (hm : m ∈ s.entities) (h : e.rootName = m.rootName) (r : Row) : e.keyOf r = m.keyOf r := by
  unfold Entity.keyOf
  rw [h, keyColumns_of_table hs he hm ((hs.family_table e he m hm).mp h)]

/-- Two rows under one identity are one row of one table. -/
theorem row_of_keyOf (hs : s.WellFormed) (hdb : db.Sound s) {e m : Entity} (he : e ∈ s.entities)
    (hm : m ∈ s.entities) {a b : Row} (ha : a ∈ db.rows e.table) (hb : b ∈ db.rows m.table)
    (h : e.keyOf a = m.keyOf b) : a = b ∧ e.rootName = m.rootName := by
  have hroot : e.rootName = m.rootName := congrArg EntityKey.family h
  have htable := (hs.family_table e he m hm).mp hroot
  have hcells := congrArg EntityKey.cells h
  simp only [Entity.keyOf] at hcells
  rw [← keyColumns_of_table hs he hm htable] at hcells
  exact ⟨hdb.row_of_cells hs he ha (htable ▸ hb) hcells, hroot⟩

theorem mem_of_member? {head m : Entity} {kind : String} (h : s.member? head kind = some m) :
    m ∈ s.entities ∧ m.rootName = head.rootName := by
  have hp := List.find?_some h
  simp only [Bool.and_eq_true, beq_iff_eq] at hp
  exact ⟨List.mem_of_find?_eq_some h, by rw [Entity.rootName, hp.1.1, hp.1.2]; rfl⟩

/-- The entity that a row is loaded as belongs to the family that it was looked for in. -/
theorem memberEntity_eq_ok {e m : Entity} {r : Row} (he : e ∈ s.entities)
    (h : memberEntity s e r = .ok m) : m ∈ s.entities ∧ m.rootName = e.rootName := by
  unfold memberEntity at h
  split at h
  · cases h
    exact ⟨he, rfl⟩
  · split at h
    · split at h
      · rename_i hm
        cases h
        exact mem_of_member? hm
      · cases h
    · cases h
      exact ⟨he, rfl⟩

theorem member?_congr {e m : Entity} (hscope : e.scope = m.scope) (hroot : e.root = m.root)
    (kind : String) : s.member? e kind = s.member? m kind := by
  unfold Schema.member?
  rw [hscope, hroot]

namespace JoinedRow

/-- The identity that a joined row brings at an occurrence. -/
def keyAt (row : JoinedRow) (o : Occurrence) : Option EntityKey :=
  entityKey? o.entity ((List.lookup (.entity o.position) row).getD [])

/-- What a joined row holds at an occurrence: a stored row, which belongs to the entity of the
occurrence unless this is the head of a family. -/
structure HoldsAt (s : Schema) (db : Database) (row : JoinedRow) (o : Occurrence) : Prop where
  entity : o.entity ∈ s.entities
  stored : ∀ r, row.rowAt o.position = some r → r ∈ db.rows o.entity.table
  member : ∀ r, row.rowAt o.position = some r → o.entity.isFamilyHead = true ∨
    ∃ f ∈ o.entity.family, r.get f.column = .text f.kind

theorem keyAt_eq (hs : s.WellFormed) (hdb : db.Sound s) {row : JoinedRow} {o : Occurrence}
    (h : row.HoldsAt s db o) : row.keyAt o = (row.rowAt o.position).map o.entity.keyOf := by
  unfold keyAt
  cases hr : row.rowAt o.position with
  | none =>
    have hnull : (o.entity.keyColumns.map fun c => Row.get [] c.name).all Cell.isNull = true := by
      simp [Row.get, Cell.isNull]
    rw [show List.lookup (Owner.entity o.position) row = none from hr]
    simp only [Option.getD_none, entityKey?, hnull, if_true, Option.map_none]
  | some r =>
    rw [show List.lookup (Owner.entity o.position) row = some r from hr]
    exact entityKey?_stored hs hdb h.entity (h.stored r hr)

theorem keyAt_of_rowAt (hs : s.WellFormed) (hdb : db.Sound s) {row : JoinedRow} {o : Occurrence}
    (h : row.HoldsAt s db o) {r : Row} (hr : row.rowAt o.position = some r) :
    row.keyAt o = some (o.entity.keyOf r) := by
  rw [keyAt_eq hs hdb h, hr]
  rfl

theorem rowAt_of_keyAt (hs : s.WellFormed) (hdb : db.Sound s) {row : JoinedRow} {o : Occurrence}
    (h : row.HoldsAt s db o) {k : EntityKey} (hk : row.keyAt o = some k) :
    ∃ r, row.rowAt o.position = some r ∧ k = o.entity.keyOf r := by
  rw [keyAt_eq hs hdb h] at hk
  obtain ⟨r, hr, rfl⟩ := Option.map_eq_some_iff.mp hk
  exact ⟨r, hr, rfl⟩

theorem rowAt_of_keyAt_none (hs : s.WellFormed) (hdb : db.Sound s) {row : JoinedRow}
    {o : Occurrence} (h : row.HoldsAt s db o) (hk : row.keyAt o = none) :
    row.rowAt o.position = none := by
  rw [keyAt_eq hs hdb h] at hk
  exact Option.map_eq_none_iff.mp hk

end JoinedRow

/-- A loaded entity stands for a stored row. -/
structure Node.StandsFor (s : Schema) (db : Database) (n : Node) (r : Row) : Prop where
  entity : n.entity ∈ s.entities
  stored : r ∈ db.rows n.entity.table
  key : n.key = n.entity.keyOf r
  member : ∃ e ∈ s.entities, e.rootName = n.entity.rootName ∧ memberEntity s e r = .ok n.entity

/-- The fields of a loaded entity show the cells of a row, the key among them. -/
structure Node.Shows (n : Node) (r : Row) : Prop where
  shown : ∀ field v, n.column? field = some v →
    ∃ c ∈ n.entity.columns, c.field = field ∧ v = c.shown (r.get c.name)
  keys : ∀ c ∈ n.entity.keyColumns, (n.column? c.field).isSome = true

/-- An entity that is loaded at an occurrence. -/
theorem standsFor_loaded (hs : s.WellFormed) {o : Occurrence} {m : Entity} {r : Row}
    (ho : o.entity ∈ s.entities) (hr : r ∈ db.rows o.entity.table)
    (hm : memberEntity s o.entity r = .ok m) {n : Node} (hkey : n.key = o.entity.keyOf r)
    (hn : n.entity = m) : n.StandsFor s db r := by
  subst hn
  obtain ⟨hmem, hroot⟩ := memberEntity_eq_ok ho hm
  refine ⟨hmem, ?_, ?_, o.entity, ho, hroot.symm, hm⟩
  · rw [(hs.family_table _ hmem _ ho).mp hroot]
    exact hr
  · rw [hkey, keyOf_of_rootName hs ho hmem hroot.symm]

/-- A loaded entity has all that an occurrence of it has. -/
theorem Node.StandsFor.covers (hs : s.WellFormed) (hdb : db.Sound s) {n : Node} {r : Row}
    (hn : n.StandsFor s db r) {row : JoinedRow} {o : Occurrence} (ho : row.HoldsAt s db o)
    {a : Row} (ha : row.rowAt o.position = some a) (hkey : n.key = o.entity.keyOf a) :
    r = a ∧ (∀ c ∈ o.entity.columns, c ∈ n.entity.columns) ∧
      ∀ q ∈ o.entity.relationships, q ∈ n.entity.relationships := by
  obtain ⟨rfl, hroot⟩ := row_of_keyOf hs hdb hn.entity ho.entity hn.stored (ho.stored a ha)
    (hn.key.symm.trans hkey)
  refine ⟨rfl, ?_⟩
  rcases ho.member r ha with hhead | ⟨f, hf, hkind⟩
  · exact hs.inherited o.entity ho.entity n.entity hn.entity hhead hroot.symm
  · -- the discriminator of the row tells its entity, whichever of the family it was looked for as
    obtain ⟨e, he, heroot, hmember⟩ := hn.member
    obtain ⟨hscope, hhead, hcolumn⟩ :=
      hs.family_like e he o.entity ho.entity (heroot.trans hroot)
    have hsame : n.entity = o.entity := by
      rw [Option.mem_def.mp hf] at hcolumn
      obtain ⟨f', hf', hfc⟩ := Option.map_eq_some_iff.mp hcolumn
      unfold memberEntity at hmember
      simp only [hf', hfc, hkind, member?_congr hscope hhead,
        hs.kind_member o.entity ho.entity f hf, Except.ok.injEq] at hmember
      exact hmember.symm
    rw [hsame]
    exact ⟨fun _ h => h, fun _ h => h⟩

theorem mem_shownColumns {cs : List Column} {r : Row} {field : String} {v : Value}
    (h : List.lookup field (shownColumns cs r) = some v) :
    ∃ c ∈ cs, c.field = field ∧ v = c.shown (r.get c.name) := by
  obtain ⟨before, after, hsplit, -⟩ := List.lookup_eq_some_iff.mp h
  have hmem : (field, v) ∈ shownColumns cs r := by
    rw [hsplit]
    simp
  obtain ⟨c, hc, he⟩ := List.mem_map.mp hmem
  exact ⟨c, hc, congrArg Prod.fst he, (congrArg Prod.snd he).symm⟩

theorem isSome_lookup_shownColumns {cs : List Column} {r : Row} {c : Column} (hc : c ∈ cs) :
    (List.lookup c.field (shownColumns cs r)).isSome = true := by
  cases h : List.lookup c.field (shownColumns cs r) with
  | some v => rfl
  | none =>
    have := List.lookup_eq_none_iff.mp h (c.field, c.shown (r.get c.name))
      (List.mem_map.mpr ⟨c, hc, rfl⟩)
    simp at this

theorem mem_loadedColumns_of_key {e : Entity} (fields : List String) {c : Column}
    (hc : c ∈ e.keyColumns) : c ∈ LoadTree.loadedColumns e fields := by
  obtain ⟨hmem, hkey⟩ := List.mem_filter.mp hc
  exact List.mem_filter.mpr ⟨hmem, by simp [LoadTree.loadsField, hkey]⟩

/-- The fields of a loaded entity once a row has shown its columns at an occurrence. -/
theorem Node.Shows.extend (hs : s.WellFormed) (hdb : db.Sound s) {n m : Node} {r : Row}
    (hn : n.StandsFor s db r) {row : JoinedRow} {o : Occurrence} (ho : row.HoldsAt s db o)
    (hr : row.rowAt o.position = some r) (hkey : n.key = o.entity.keyOf r) (fields : List String)
    (hm : m.entity = n.entity)
    (hcolumns : ∀ field v, m.column? field = some v → n.Shows r ∧ n.column? field = some v ∨
      List.lookup field (shownColumns (LoadTree.loadedColumns o.entity fields) r) = some v)
    (hloaded : ∀ field,
      (List.lookup field (shownColumns (LoadTree.loadedColumns o.entity fields) r)).isSome = true →
        (m.column? field).isSome = true) : m.Shows r := by
  obtain ⟨-, hcover, -⟩ := hn.covers hs hdb ho hr hkey
  constructor
  · intro field v hv
    rw [hm]
    rcases hcolumns field v hv with ⟨hshows, h⟩ | h
    · exact hshows.shown field v h
    · obtain ⟨c, hc, hfield, hshown⟩ := mem_shownColumns h
      exact ⟨c, hcover c (List.mem_filter.mp hc).1, hfield, hshown⟩
  · intro c hc
    have hroot : n.entity.rootName = o.entity.rootName :=
      congrArg EntityKey.family (hn.key.symm.trans hkey)
    rw [hm, keyColumns_of_table hs hn.entity ho.entity
      ((hs.family_table _ hn.entity _ ho.entity).mp hroot)] at hc
    exact hloaded c.field (isSome_lookup_shownColumns (mem_loadedColumns_of_key fields hc))

end EntityQuery
