import EntityQuery.Proofs.Completeness
/-!
Loading all rows. If, beside each row of the source of a relationship, every related row of its target
is found in some joined row, then the graph leads from each loaded entity to all related entities.
-/
namespace EntityQuery

variable {s : Schema} {db : Database}

namespace LoadTree

variable {t : LoadTree} {g h : Graph} {rows : List JoinedRow}

theorem loadAll_cons_eq_ok {row : JoinedRow} (hl : t.loadAll s g (row :: rows) = .ok h) :
    ∃ key i, t.load s row g = .ok (key, i) ∧ t.loadAll s i rows = .ok h := by
  unfold loadAll at hl
  rw [List.foldlM_cons] at hl
  obtain ⟨i, hi, hrest⟩ := ok_of_bind hl
  obtain ⟨⟨key, i'⟩, hload, rfl⟩ := ok_of_map hi
  exact ⟨key, i', hload, hrest⟩

theorem loadAll_append_eq_ok {more : List JoinedRow} (hl : t.loadAll s g (rows ++ more) = .ok h) :
    ∃ i, t.loadAll s g rows = .ok i ∧ t.loadAll s i more = .ok h := by
  unfold loadAll at hl ⊢
  rw [List.foldlM_append] at hl
  exact ok_of_bind hl

theorem loadAll_grows (hl : t.loadAll s g rows = .ok h) : Graph.Grows (fun _ _ => False) g h := by
  induction rows generalizing g with
  | nil =>
    cases hl
    exact .refl _
  | cons row rows ih =>
    obtain ⟨key, i, hload, hrest⟩ := loadAll_cons_eq_ok hl
    exact (load_grows hload).1.trans (ih hrest)

theorem loadAll_exact (hs : s.WellFormed) (hdb : db.Sound s)
    (hsuits : ∀ row ∈ rows, row.Suits s db t) (hg : g.Exact s db)
    (hl : t.loadAll s g rows = .ok h) : h.Exact s db := by
  induction rows generalizing g with
  | nil =>
    cases hl
    exact hg
  | cons row rows ih =>
    obtain ⟨key, i, hload, hrest⟩ := loadAll_cons_eq_ok hl
    exact ih (fun row hr => hsuits row (List.mem_cons_of_mem _ hr))
      (load_exact hs hdb (hsuits row List.mem_cons_self) hg hload) hrest

/-- The graphs before and after a row. -/
theorem loadAll_mem_eq_ok {row : JoinedRow} {before after : List JoinedRow}
    (hl : t.loadAll s g (before ++ row :: after) = .ok h) :
    ∃ i key k, t.loadAll s g before = .ok i ∧ t.load s row i = .ok (key, k) ∧
      t.loadAll s k after = .ok h := by
  obtain ⟨i, hi, hrest⟩ := loadAll_append_eq_ok hl
  obtain ⟨key, k, hload, hk⟩ := loadAll_cons_eq_ok hrest
  exact ⟨i, key, k, hi, hload, hk⟩

/-- The root of each row is in the graph. -/
theorem loadAll_root (hl : t.loadAll s g rows = .ok h) {row : JoinedRow} (hrow : row ∈ rows)
    {x : EntityKey} (hx : row.keyAt t.occurrence = some x) : h.Has x := by
  obtain ⟨before, after, rfl⟩ := List.append_of_mem hrow
  obtain ⟨i, key, k, -, hload, hk⟩ := loadAll_mem_eq_ok hl
  exact (loadAll_grows hk).has x ((load_grows hload).2 x hx)

theorem loadAll_reaches (hs : s.WellFormed) (hdb : db.Sound s)
    (hsuits : ∀ row ∈ rows, row.Suits s db t) (hl : t.loadAll s g rows = .ok h) {row : JoinedRow}
    (hrow : row ∈ rows) {e : Edge} (he : e ∈ t.edges) {x : EntityKey}
    (hx : row.keyAt e.source = some x) :
    (h.reference? x e.relationship.name).isSome = true ∧
      ∀ y, row.keyAt e.target = some y → h.Has y := by
  have hsuit := hsuits row hrow
  obtain ⟨before, after, rfl⟩ := List.append_of_mem hrow
  obtain ⟨i, key, k, -, hload, hk⟩ := loadAll_mem_eq_ok hl
  obtain ⟨hloaded, hhas⟩ := load_reaches hs hdb hsuit hload he hx
  exact ⟨(loadAll_grows hk).loaded _ _ hloaded, fun y hy => (loadAll_grows hk).has y (hhas y hy)⟩

theorem has_of_reference? {x : EntityKey} {name : String}
    (h : (g.reference? x name).isSome = true) : g.Has x := by
  unfold Graph.reference? at h
  unfold Graph.Has
  cases hn : g.node? x with
  | none => simp [hn] at h
  | some n => rfl

/-- Beside a row of the source of a relationship, each related row of the target is found. -/
def Closed (db : Database) (edges : List Edge) (rows : List JoinedRow) : Prop :=
  ∀ row ∈ rows, ∀ e ∈ edges, ∀ r, row.rowAt e.source.position = some r →
    ∀ y ∈ e.relationship.related db e.target.entity r,
      ∃ other ∈ rows, other.rowAt e.source.position = some r ∧
        other.rowAt e.target.position = some y

/-- Relationships of one name that start at one row are the same. -/
theorem edge_unique (hs : s.WellFormed) (hdb : db.Sound s) (hg : g.Exact s db)
    {row other : JoinedRow} {e f : Edge} (he : e.Linked s db row) (hf : f.Linked s db other)
    (hes : row.HoldsAt s db e.source) (hfs : other.HoldsAt s db f.source) {r a : Row}
    (hr : row.rowAt e.source.position = some r) (ha : other.rowAt f.source.position = some a)
    (hkey : e.source.entity.keyOf r = f.source.entity.keyOf a)
    (hhas : g.Has (e.source.entity.keyOf r)) (hname : e.relationship.name = f.relationship.name) :
    r = a ∧ e.relationship = f.relationship ∧ e.target.entity = f.target.entity := by
  obtain ⟨n, hn⟩ := Option.isSome_iff_exists.mp hhas
  obtain ⟨b, hb, -, -⟩ := hg _ n hn
  have hnkey := Graph.key_of_node? hn
  obtain ⟨rfl, -, hcover⟩ := hb.covers hs hdb hes hr hnkey
  obtain ⟨hba, -, hcover'⟩ := hb.covers hs hdb hfs ha (hnkey.trans hkey)
  have hrel := relationship_of_name hs hb.entity (hcover _ he.relationship)
    (hcover' _ hf.relationship) hname
  exact ⟨hba, hrel, Option.some.inj (he.entity.symm.trans (hrel ▸ hf.entity))⟩

/-- What a row brings into a collection of an entity that is already there stays in it. -/
theorem loadAll_item_of_has (hs : s.WellFormed) (hdb : db.Sound s)
    (hsuits : ∀ row ∈ rows, row.Suits s db t) (hg : g.Exact s db) (hl : t.loadAll s g rows = .ok h)
    {row : JoinedRow} (hrow : row ∈ rows) {e : Edge} (he : e ∈ t.edges)
    (hmany : e.relationship.many = true) {x y : EntityKey} (hx : row.keyAt e.source = some x)
    (hy : row.keyAt e.target = some y) (hhas : g.Has x) : y ∈ h.items x e.relationship.name := by
  have hsuit := hsuits row hrow
  obtain ⟨before, after, rfl⟩ := List.append_of_mem hrow
  obtain ⟨i, key, k, hbefore, hload, hafter⟩ := loadAll_mem_eq_ok hl
  have hi : i.Exact s db :=
    loadAll_exact hs hdb (fun other ho => hsuits other (List.mem_append_left _ ho)) hg hbefore
  rcases load_complete hs hdb hsuit hi hload he hmany hx hy with hitem | ⟨hnew, -⟩
  · exact (loadAll_grows hafter).items _ _ id _ hitem
  · exact absurd ((loadAll_grows hbefore).has _ hhas) hnew

/-- A collection that is loaded from rows holds all related rows. -/
theorem loadAll_complete (hs : s.WellFormed) (hdb : db.Sound s)
    (hsuits : ∀ row ∈ rows, row.Suits s db t)
    (hsources : ∀ row ∈ rows, ∀ e ∈ t.edges, row.HoldsAt s db e.source)
    (hclosed : Closed db t.edges rows) (hl : t.loadAll s {} rows = .ok h) {row : JoinedRow}
    (hrow : row ∈ rows) {e : Edge} (he : e ∈ t.edges) (hmany : e.relationship.many = true)
    {r y : Row} (hr : row.rowAt e.source.position = some r)
    (hy : y ∈ e.relationship.related db e.target.entity r) :
    e.target.entity.keyOf y ∈ h.items (e.source.entity.keyOf r) e.relationship.name := by
  have hkeySource : ∀ {row : JoinedRow} {f : Edge} {a : Row}, row ∈ rows → f ∈ t.edges →
      row.rowAt f.source.position = some a →
        row.keyAt f.source = some (f.source.entity.keyOf a) := fun hrow hf ha =>
    JoinedRow.keyAt_of_rowAt hs hdb (hsources _ hrow _ hf) ha
  have hkeyTarget : ∀ {row : JoinedRow} {f : Edge} {b : Row}, row ∈ rows → f ∈ t.edges →
      row.rowAt f.target.position = some b →
        row.keyAt f.target = some (f.target.entity.keyOf b) := fun hrow hf hb =>
    JoinedRow.keyAt_of_rowAt hs hdb ((hsuits _ hrow).edge _ hf).target hb
  obtain ⟨found, hfound, hfr, hfy⟩ := hclosed row hrow e he r hr y hy
  obtain ⟨before, after, hsplit⟩ := List.append_of_mem hfound
  rw [hsplit] at hl
  obtain ⟨i, key, k, hbefore, hload, hafter⟩ := loadAll_mem_eq_ok hl
  have hin : ∀ other, other ∈ before ∨ other = found ∨ other ∈ after → other ∈ rows :=
    fun other ho => by
      rw [hsplit]
      simpa using ho
  have hsuitsBefore := fun other ho => hsuits other (hin other (.inl ho))
  have hsuitsAfter := fun other ho => hsuits other (hin other (.inr (.inr ho)))
  have hi : i.Exact s db := loadAll_exact hs hdb hsuitsBefore Graph.exact_empty hbefore
  have hk : k.Exact s db := load_exact hs hdb (hsuits found hfound) hi hload
  rcases load_complete hs hdb (hsuits found hfound) hi hload he hmany (hkeySource hfound he hfr)
    (hkeyTarget hfound he hfy) with hitem | ⟨hnew, f, hf, hfx, hname, hkept⟩
  · exact (loadAll_grows hafter).items _ _ id _ hitem
  · -- the entity is new in this row; the relationship that keeps its items leads to the same rows
    obtain ⟨a, ha, hkey⟩ := JoinedRow.rowAt_of_keyAt hs hdb (hsources found hfound f hf) hfx
    have hhas : k.Has (e.source.entity.keyOf r) := has_of_reference?
      (load_reaches hs hdb (hsuits found hfound) hload he (hkeySource hfound he hfr)).1
    obtain ⟨rfl, hrel, htarget⟩ := edge_unique hs hdb hk ((hsuits found hfound).edge e he)
      ((hsuits found hfound).edge f hf) (hsources found hfound e he) (hsources found hfound f hf)
      hfr ha hkey hhas hname.symm
    have hyf : y ∈ f.relationship.related db f.target.entity r := by
      rw [← hrel, ← htarget]
      exact hy
    obtain ⟨other, hother, hor, hoy⟩ := hclosed found hfound f hf r ha y hyf
    have hplace : other ∈ before ∨ other = found ∨ other ∈ after := by
      rw [hsplit] at hother
      simpa using hother
    rcases hplace with hob | rfl | hoa
    · -- a row before would have loaded the entity
      have hloaded := has_of_reference?
        (loadAll_reaches hs hdb hsuitsBefore hbefore hob hf (hkeySource hother hf hor)).1
      exact absurd (hkey ▸ hloaded) hnew
    · have hitem := hkept _ (hkeyTarget hother hf hoy)
      rw [← htarget] at hitem
      exact (loadAll_grows hafter).items _ _ id _ hitem
    · -- in a row after it the entity is not new
      have hitem := loadAll_item_of_has hs hdb hsuitsAfter hk hafter hoa hf (hrel ▸ hmany)
        (hkeySource hother hf hor) (hkeyTarget hother hf hoy) (hkey ▸ hhas)
      rwa [← htarget, ← hkey, ← hrel] at hitem

end LoadTree
end EntityQuery
