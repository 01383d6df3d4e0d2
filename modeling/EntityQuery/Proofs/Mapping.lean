import EntityQuery.Execution.Write
import EntityQuery.Graph.Load
import EntityQuery.Model.Sample
import EntityQuery.Plan.Statement
import EntityQuery.Proofs.Comparison
/-!
Schemas whose parts fit together, and databases that keep the constraints of their schema: keys are
there and differ, and no cell is a NaN.
-/
namespace EntityQuery

/-- Columns of these types are compared as they are: both hold texts, or neither does. -/
def ColumnType.comparable (t u : ColumnType) : Bool := decide (t = .text) == decide (u = .text)

/-- A link between entities compares columns as they are, and a reference holds the whole key of its
target. -/
def Link.fits (source target : Entity) : Link → Bool
  | .owns key foreign =>
    (source.columnNamed key).type.comparable (target.columnNamed foreign).type
  | .refers foreign key =>
    (target.columnNamed key).type.comparable (source.columnNamed foreign).type &&
      target.keyColumns == [target.columnNamed key]
  | .through _ sourceKey _ targetKey _ =>
    decide ((source.columnNamed sourceKey).type ≠ .text) &&
      decide ((target.columnNamed targetKey).type ≠ .text)

/-- A reference to a single entity is the way a row of the source holds the key of a target. -/
def Relationship.isManyToOne (r : Relationship) : Bool :=
  match r.link with
  | .refers _ _ => true
  | _ => false

def TableShape.keyColumns (t : TableShape) : List Column := t.columns.filter (·.key)

/-- The members of an entity, fields and relationships, by name. -/
def Entity.memberNames (e : Entity) : List String :=
  e.columns.map (·.field) ++ e.relationships.map (·.name)

/-- The parts of a schema fit together. -/
structure Schema.WellFormed (s : Schema) : Prop where
  entity_names : (s.entities.map (·.name)).Nodup
  table_names : (s.tables.map (·.name)).Nodup
  column_names : ∀ t ∈ s.tables, (t.columns.map (·.name)).Nodup
  keys_required : ∀ t ∈ s.tables, ∀ c ∈ t.columns, c.key = true → c.optional = false
  defaults_proper : ∀ t ∈ s.tables, ∀ c ∈ t.columns, c.default.Proper
  keyed : ∀ e ∈ s.entities, e.keyColumns ≠ []
  stored : ∀ e ∈ s.entities, ∃ t ∈ s.tables, t.name = e.table ∧ (∀ c ∈ e.columns, c ∈ t.columns) ∧
    e.keyColumns = t.keyColumns
  member_names : ∀ e ∈ s.entities, e.memberNames.Nodup
  /-- Entities share a table exactly if they are of one family. -/
  family_table : ∀ e ∈ s.entities, ∀ m ∈ s.entities, e.rootName = m.rootName ↔ e.table = m.table
  /-- What the head of a family has, all of the family have. -/
  inherited : ∀ e ∈ s.entities, ∀ m ∈ s.entities, e.isFamilyHead = true →
    e.rootName = m.rootName →
      (∀ c ∈ e.columns, c ∈ m.columns) ∧ ∀ r ∈ e.relationships, r ∈ m.relationships
  /-- A family has one scope, one head and one discriminator. -/
  family_like : ∀ e ∈ s.entities, ∀ m ∈ s.entities, e.rootName = m.rootName →
    e.scope = m.scope ∧ e.root = m.root ∧ e.family.map (·.column) = m.family.map (·.column)
  kind_text : ∀ e ∈ s.entities, ∀ f ∈ e.family, (e.columnNamed f.column).type = .text
  kind_member : ∀ e ∈ s.entities, ∀ f ∈ e.family, s.member? e f.kind = some e
  subclass : ∀ e ∈ s.entities, e.isFamilyHead = true ∨ e.family.isSome = true
  targets : ∀ e ∈ s.entities, ∀ r ∈ e.relationships,
    (s.entity? r.target).any (fun t => t.isFamilyHead && r.link.fits e t) = true
  single_reference : ∀ e ∈ s.entities, ∀ r ∈ e.relationships,
    r.isManyToOne = true → r.many = false

theorem sample_wellFormed : Model.sample.WellFormed where
  entity_names := by decide +kernel
  table_names := by decide +kernel
  column_names := by decide +kernel
  keys_required := by decide +kernel
  defaults_proper := by decide +kernel
  keyed := by decide +kernel
  stored := by decide +kernel
  member_names := by decide +kernel
  family_table := by decide +kernel
  inherited := by decide +kernel
  family_like := by decide +kernel
  kind_text := by decide +kernel
  kind_member := by decide +kernel
  subclass := by decide +kernel
  targets := by decide +kernel
  single_reference := by decide +kernel

/-- A database keeps the constraints of its schema. -/
structure Database.Sound (s : Schema) (db : Database) : Prop where
  keys_present : ∀ t ∈ s.tables, ∀ row ∈ db.rows t.name, ∀ c ∈ t.columns, c.key = true →
    row.get c.name ≠ .null
  keys_distinct : ∀ t ∈ s.tables, t.columns.any (·.key) = true →
    (db.rows t.name).Pairwise fun a b => Database.sameKeyRow t a b = false
  cells_proper : ∀ t ∈ s.tables, ∀ row ∈ db.rows t.name, ∀ entry ∈ row, Cell.Proper entry.2

/-- The identity of the entity that a stored row holds: no part of a key is missing. -/
theorem entityKey?_stored {s : Schema} {db : Database} (hs : s.WellFormed) (hdb : db.Sound s)
    {e : Entity} (he : e ∈ s.entities) {r : Row} (hr : r ∈ db.rows e.table) :
    entityKey? e r = some ⟨e.rootName, e.keyColumns.map fun c => r.get c.name⟩ := by
  obtain ⟨t, ht, hname, hcols, -⟩ := hs.stored e he
  have hpresent : ∀ c ∈ e.keyColumns, r.get c.name ≠ .null := fun c hc =>
    hdb.keys_present t ht r (hname ▸ hr) c (hcols c (List.mem_filter.mp hc).1)
      (List.mem_filter.mp hc).2
  unfold entityKey?
  rw [if_neg]
  cases hk : e.keyColumns with
  | nil => exact absurd hk (hs.keyed e he)
  | cons c cs => simp [Cell.isNull, hpresent c (by simp [hk])]

theorem sampleRows_sound : Model.sampleRows.Sound Model.sample where
  keys_present := by decide +kernel
  keys_distinct := by decide +kernel
  cells_proper := by decide +kernel

end EntityQuery
