import EntityQuery.Proofs.Mapping
import EntityQuery.Proofs.Rows
/-!
Which rows belong together. The link of a relationship relates a row of its source to rows of its
target; the predicates that a join puts into a statement say the same.
-/
namespace EntityQuery

/-- Whether rows of a source and a target belong together by a link. -/
def Link.Relates (db : Database) (r y : Row) : Link → Prop
  | .owns key foreign => (r.get key).Same (y.get foreign)
  | .refers foreign key => (y.get key).Same (r.get foreign)
  | .through table sourceKey linkSource targetKey linkTarget =>
    ∃ l ∈ db.rows table, (r.get sourceKey).Same (l.get linkSource) ∧
      (y.get targetKey).Same (l.get linkTarget)

instance (db : Database) (r y : Row) (l : Link) : Decidable (l.Relates db r y) := by
  cases l <;> unfold Link.Relates <;> infer_instance

/-- The rows of a target that a relationship leads to from a row. -/
def Relationship.related (db : Database) (q : Relationship) (target : Entity) (r : Row) :
    List Row :=
  (db.rows target.table).filter fun y => q.link.Relates db r y

theorem mem_related {db : Database} {q : Relationship} {target : Entity} {r y : Row} :
    y ∈ q.related db target r ↔ y ∈ db.rows target.table ∧ q.link.Relates db r y := by
  simp [Relationship.related]

theorem Row.get_proper {row : Row} (h : ∀ entry ∈ row, Cell.Proper entry.2) (column : String) :
    (row.get column).Proper := by
  unfold Row.get
  cases hl : List.lookup column row with
  | none => trivial
  | some c =>
    obtain ⟨l₁, l₂, rfl, -⟩ := List.lookup_eq_some_iff.mp hl
    exact h (column, c) (by simp)

variable {s : Schema} {db : Database}

theorem Database.Sound.proper (hs : s.WellFormed) (hdb : db.Sound s) {e : Entity}
    (he : e ∈ s.entities) {r : Row} (hr : r ∈ db.rows e.table) (column : String) :
    (r.get column).Proper := by
  obtain ⟨t, ht, hname, -⟩ := hs.stored e he
  exact Row.get_proper (hdb.cells_proper t ht r (hname ▸ hr)) column

theorem Database.Sound.key_present (hs : s.WellFormed) (hdb : db.Sound s) {e : Entity}
    (he : e ∈ s.entities) {r : Row} (hr : r ∈ db.rows e.table) {c : Column}
    (hc : c ∈ e.keyColumns) : r.get c.name ≠ .null := by
  obtain ⟨t, ht, hname, hcols, -⟩ := hs.stored e he
  exact hdb.keys_present t ht r (hname ▸ hr) c (hcols c (List.mem_filter.mp hc).1)
    (List.mem_filter.mp hc).2

theorem pairwise_eq_of_not {α : Type} {P : α → α → Prop} {xs : List α}
    (h : xs.Pairwise fun a b => ¬ P a b) {a b : α} (ha : a ∈ xs) (hb : b ∈ xs) (hab : P a b)
    (hba : P b a) : a = b := by
  induction xs with
  | nil => cases ha
  | cons x xs ih =>
    obtain ⟨hx, hxs⟩ := List.pairwise_cons.mp h
    rcases List.mem_cons.mp ha with rfl | ha'
    · rcases List.mem_cons.mp hb with rfl | hb'
      · rfl
      · exact absurd hab (hx b hb')
    · rcases List.mem_cons.mp hb with rfl | hb'
      · exact absurd hba (hx a ha')
      · exact ih hxs ha' hb'

/-- No two rows of an entity agree in the key. -/
theorem Database.Sound.pairwise_keys (hs : s.WellFormed) (hdb : db.Sound s) {e : Entity}
    (he : e ∈ s.entities) : (db.rows e.table).Pairwise fun a b =>
      ¬ ∀ c ∈ e.keyColumns, (a.get c.name).Same (b.get c.name) := by
  obtain ⟨t, ht, hname, -, hkeys⟩ := hs.stored e he
  have hany : t.columns.any (·.key) = true := by
    have hne := hs.keyed e he
    rw [hkeys] at hne
    obtain ⟨c, hc⟩ := List.exists_mem_of_ne_nil _ hne
    exact List.any_eq_true.mpr ⟨c, (List.mem_filter.mp hc).1, (List.mem_filter.mp hc).2⟩
  rw [← hname, hkeys]
  refine (hdb.keys_distinct t ht hany).imp fun hdistinct hsame => ?_
  refine Bool.eq_false_iff.mp hdistinct (List.all_eq_true.mpr fun c hc => ?_)
  obtain ⟨hpresent, -, horder⟩ := Cell.same_iff.mp (hsame c hc)
  simp [hpresent, horder]

/-- Rows of one entity that agree in the key are one row. -/
theorem Database.Sound.row_unique (hs : s.WellFormed) (hdb : db.Sound s) {e : Entity}
    (he : e ∈ s.entities) {a b : Row} (ha : a ∈ db.rows e.table) (hb : b ∈ db.rows e.table)
    (h : ∀ c ∈ e.keyColumns, (a.get c.name).Same (b.get c.name)) : a = b :=
  pairwise_eq_of_not (hdb.pairwise_keys hs he) ha hb h fun c hc =>
    (h c hc).symm (hdb.proper hs he ha _) (hdb.proper hs he hb _)

theorem Cell.same_self {c : Cell} (hc : c.Proper) (hn : c ≠ .null) : c.Same c :=
  Cell.same_iff.mpr ⟨hn, hn, (Cell.order_eq_eq hc hc).mpr rfl⟩

theorem Database.Sound.nodup_rows (hs : s.WellFormed) (hdb : db.Sound s) {e : Entity}
    (he : e ∈ s.entities) : (db.rows e.table).Nodup :=
  (hdb.pairwise_keys hs he).imp_of_mem fun ha _ hne heq => hne fun c hc => by
    rw [← heq]
    exact Cell.same_self (hdb.proper hs he ha _) (hdb.key_present hs he ha hc)

/-- A row is told by the cells of its key. -/
theorem Database.Sound.row_of_cells (hs : s.WellFormed) (hdb : db.Sound s) {e : Entity}
    (he : e ∈ s.entities) {a b : Row} (ha : a ∈ db.rows e.table) (hb : b ∈ db.rows e.table)
    (h : e.keyColumns.map (fun c => a.get c.name) = e.keyColumns.map fun c => b.get c.name) :
    a = b := by
  refine hdb.row_unique hs he ha hb fun c hc => ?_
  rw [← List.map_inj_left.mp h c hc]
  exact Cell.same_self (hdb.proper hs he ha _) (hdb.key_present hs he ha hc)

theorem Entity.columnNamed_name (e : Entity) (name : String) : (e.columnNamed name).name = name := by
  unfold columnNamed
  cases h : e.columns.find? (·.name == name) with
  | none => rfl
  | some c => simpa using List.find?_some h

/-- The single entity that a reference leads to: no two rows hold the referred key. -/
theorem related_unique (hs : s.WellFormed) (hdb : db.Sound s) {e target : Entity}
    {q : Relationship} (ht : target ∈ s.entities) (hq : q.isManyToOne = true)
    (hfits : q.link.fits e target = true) {r : Row} (hr : ∀ column, (r.get column).Proper)
    {y z : Row} (hy : y ∈ q.related db target r) (hz : z ∈ q.related db target r) : y = z := by
  obtain ⟨hy, hyr⟩ := mem_related.mp hy
  obtain ⟨hz, hzr⟩ := mem_related.mp hz
  unfold Relationship.isManyToOne at hq
  cases hl : q.link with
  | owns key foreign =>
    rw [hl] at hq
    cases hq
  | through table sourceKey linkSource targetKey linkTarget =>
    rw [hl] at hq
    cases hq
  | refers foreign key =>
    rw [hl] at hyr hzr hfits
    have hkey : target.keyColumns = [target.columnNamed key] := by
      simp only [Link.fits, Bool.and_eq_true, beq_iff_eq] at hfits
      exact hfits.2
    refine hdb.row_unique hs ht hy hz fun c hc => ?_
    rw [hkey, List.mem_singleton] at hc
    rw [hc, Entity.columnNamed_name]
    exact Cell.Same.trans (hdb.proper hs ht hy _) (hr _) (hdb.proper hs ht hz _) hyr
      (Cell.Same.symm (hdb.proper hs ht hz _) (hr _) hzr)

theorem Truth.and_eq_true {a b : Truth} : Truth.and a b = some true ↔ a = some true ∧ b = some true := by
  rcases a with _ | _ | _ <;> rcases b with _ | _ | _ <;> simp [Truth.and]

namespace Predicate

theorem evalAll_eq_true {row : JoinedRow} {ps : List Predicate} :
    evalAll row ps = some true ↔ ∀ p ∈ ps, p.holds row = true := by
  induction ps with
  | nil => simp [evalAll]
  | cons p ps ih => rw [evalAll, Truth.and_eq_true, ih, List.forall_mem_cons, holds, beq_iff_eq]

theorem holds_conjuncts {row : JoinedRow} {p : Predicate} :
    (∀ q ∈ p.conjuncts, q.holds row = true) ↔ p.holds row = true := by
  cases p with
  | all ps => rw [conjuncts, ← evalAll_eq_true, holds, eval, beq_iff_eq]
  | _ => simp [conjuncts]

/-- A conjunction holds where all its parts do. -/
theorem holds_conjunction {row : JoinedRow} {ps : List Predicate} :
    (conjunction ps).holds row = true ↔ ∀ p ∈ ps, p.holds row = true := by
  have hflat : (∀ q ∈ ps.flatMap conjuncts, q.holds row = true) ↔ ∀ p ∈ ps, p.holds row = true := by
    constructor
    · intro h p hp
      exact holds_conjuncts.mp fun q hq => h q (List.mem_flatMap.mpr ⟨p, hp, hq⟩)
    · intro h q hq
      obtain ⟨p, hp, hq⟩ := List.mem_flatMap.mp hq
      exact holds_conjuncts.mpr (h p hp) q hq
  rw [← hflat]
  unfold conjunction
  split
  · rename_i q hq
    simp [hq]
  · rw [← evalAll_eq_true, holds, eval, beq_iff_eq]

end Predicate

namespace Plan

/-- Columns whose types are compared as they are are equal where their cells are. -/
theorem holds_equality {l r : ColumnRef} (h : l.column.type.comparable r.column.type = true)
    (row : JoinedRow) : (equality l r).holds row = true ↔ (row.get l).Same (row.get r) := by
  have hsides : alignedColumns l.column.type r.column.type (row.get l) (row.get r) =
      (row.get l, row.get r) := by
    unfold ColumnType.comparable at h
    unfold alignedColumns
    by_cases ht : l.column.type = .text <;> by_cases hu : r.column.type = .text <;>
      simp_all
  simp [equality, Predicate.holds, Predicate.eval, Operand.sides, hsides, Cell.Same]

/-- Where a join uses a link table, its relationship goes over that table. -/
theorem exists_through {j : ResolvedJoin} {n : Nat} {table : String}
    {toSource toTarget : Predicate} (h : linkPredicate j n = .through table toSource toTarget) :
    ∃ sourceKey linkSource targetKey linkTarget,
      j.relationship.link = .through table sourceKey linkSource targetKey linkTarget := by
  unfold linkPredicate at h
  split at h
  · cases h
  · cases h
  · cases h
    exact ⟨_, _, _, _, ‹_›⟩

end Plan
end EntityQuery
