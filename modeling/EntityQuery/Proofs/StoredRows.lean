import EntityQuery.Proofs.Identity
import EntityQuery.Proofs.Matches
import EntityQuery.Proofs.RootFilter
/-!
What joined rows hold. Every part of a joined row comes from a table of its source, so a match of a plan
holds a stored row, or none, at each occurrence of the plan, whatever its joins and their conditions
are.
-/
namespace EntityQuery

variable {s : Schema} {db : Database} {p : Plan} {js : List Plan.ResolvedJoin}

theorem Cell.eq_text_of_same {c : Cell} {k : String} (hc : c.Proper) (h : c.Same (.text k)) :
    c = .text k := by
  have hk : (text k).Proper := trivial
  have hplace := (order_eq_eq hc hk).mp (same_iff.mp h).2.2
  cases c with
  | text t =>
    simp only [place, Prod.mk.injEq, true_and] at hplace
    have hinj : Function.Injective Char.toNat := fun _ _ hab => Char.toNat_inj.mp hab
    rw [String.ext (hinj.list_map hplace)]
  | null =>
    have hclass : 0 = 2 := congrArg Prod.fst hplace
    omega
  | integer n =>
    have hclass : 1 = 2 := congrArg Prod.fst hplace
    omega
  | real x =>
    have hclass : 1 = 2 := congrArg Prod.fst hplace
    omega
  | blob b =>
    have hclass : 3 = 2 := congrArg Prod.fst hplace
    omega

theorem Cell.same_text (k : String) : (Cell.text k).Same (.text k) := by
  have hk : (text k).Proper := trivial
  exact same_iff.mpr ⟨by simp, by simp, (order_eq_eq hk hk).mpr rfl⟩

/-- In a column of texts the one member of a list is told by comparison. -/
theorem holds_member_text_iff {row : JoinedRow} {c : ColumnRef} {k : String}
    (ht : c.column.type = .text) :
    (Predicate.member false c [.text k]).holds row = true ↔ (row.get c).Same (.text k) := by
  have hcells : (severalCells .text [Value.text k]).map (alignedWith .text) = [.text k] := rfl
  unfold Predicate.holds Predicate.eval Cell.Same
  rw [ht, hcells]
  simp only [negatedIf, memberOf, beq_iff_eq]
  cases compareCells .equal (row.get c) (.text k) with
  | none => simp [Truth.or]
  | some b => cases b <;> simp [Truth.or]

/-- A stored row belongs to an entity, which is the head of its family or has the kind of the row. -/
def Entity.Owns (e : Entity) (row : Row) : Prop :=
  e.isFamilyHead = true ∨ ∃ f ∈ e.family, row.get f.column = .text f.kind

instance (e : Entity) (row : Row) : Decidable (e.Owns row) :=
  inferInstanceAs (Decidable (_ ∨ ∃ f ∈ e.family, _))

/-- Each part of a joined row comes from a table of the source. -/
theorem Source.rows_part {source : Source} {row : JoinedRow} (h : row ∈ source.rows db)
    {part : Owner × Row} (hp : part ∈ row) :
    ∃ t ∈ source.tables, t.1 = part.1 ∧ part.2 ∈ db.rows t.2.1 := by
  induction source generalizing row part with
  | table owner name aliasName =>
    obtain ⟨r, hr, rfl⟩ := List.mem_map.mp h
    cases List.mem_singleton.mp hp
    exact ⟨_, List.mem_singleton.mpr rfl, rfl, hr⟩
  | join left right outer on ihl ihr =>
    rw [rows_join] at h
    obtain ⟨l, hl, h⟩ := List.mem_flatMap.mp h
    obtain ⟨x, hx, rfl⟩ := List.mem_map.mp h
    rcases List.mem_append.mp hp with hp | hp
    · obtain ⟨t, ht, hrest⟩ := ihl hl hp
      exact ⟨t, List.mem_append_left _ ht, hrest⟩
    · rcases mem_additions hx with rfl | hx
      · cases hp
      · obtain ⟨t, ht, hrest⟩ := ihr hx hp
        exact ⟨t, List.mem_append_right _ ht, hrest⟩

namespace Plan

/-- The tables of a source that a join continues: those before, that of the target and a link table. -/
theorem tables_continued {left : Source} {j : ResolvedJoin} {n : Nat}
    {t : Owner × String × String} (h : t ∈ (continued left j n).tables) :
    t ∈ left.tables ∨ t = (.entity j.target.position, j.target.entity.table, j.target.aliasName) ∨
      t.1 = .link j.target.position := by
  have hjoin : ∀ {outer on}, t ∈ (Source.join left j.target.source outer on).tables →
      t ∈ left.tables ∨ t = (.entity j.target.position, j.target.entity.table, j.target.aliasName) :=
    fun h => (List.mem_append.mp h).imp_right List.mem_singleton.mp
  unfold continued at h
  split at h
  · exact (hjoin h).imp_right .inl
  · split at h
    · exact (hjoin h).imp_right .inl
    · dsimp only at h
      split at h <;>
        simp only [Source.tables, Occurrence.source, List.mem_append, List.mem_singleton] at h <;>
        grind

theorem tables_chain {left : Source} {used : List String} {js : List ResolvedJoin} {k : Nat}
    {t : Owner × String × String} (h : t ∈ (chain left used js).tables) (hk : t.1 = .entity k) :
    t ∈ left.tables ∨ ∃ j ∈ js, j.target.position = k ∧ t.2.1 = j.target.entity.table := by
  induction js generalizing left used with
  | nil => exact .inl h
  | cons j js ih =>
    rcases ih h with h | ⟨i, hi, hrest⟩
    · rcases tables_continued h with h | rfl | hlink
      · exact .inl h
      · exact .inr ⟨j, List.mem_cons_self, Owner.entity.inj hk, rfl⟩
      · rw [hlink] at hk
        cases hk
    · exact .inr ⟨i, List.mem_cons_of_mem j hi, hrest⟩

theorem occurrences_of_staged {place : Nat} (hst : Staged s p place js) :
    ∀ j ∈ js, (∃ k ≤ place + js.length, p.occurrence? k = some j.source) ∧
      (∃ k ≤ place + js.length, p.occurrence? k = some j.target) ∧
      s.entity? j.relationship.target = some j.target.entity := by
  induction js generalizing place with
  | nil => exact fun _ h => absurd h List.not_mem_nil
  | cons j js ih =>
    obtain ⟨⟨k, hk, hsource⟩, htarget, -, hentity, hrest⟩ := hst
    intro i hi
    rw [List.length_cons]
    rcases List.mem_cons.mp hi with rfl | hi
    · exact ⟨⟨k, by omega, hsource⟩, ⟨place + 1, by omega, htarget⟩, hentity⟩
    · obtain ⟨⟨k1, h1, ho1⟩, ⟨k2, h2, ho2⟩, he⟩ := ih hrest i hi
      exact ⟨⟨k1, by omega, ho1⟩, ⟨k2, by omega, ho2⟩, he⟩

/-- Each occurrence after the first ones is the target of a join. -/
theorem exists_join {place : Nat} (hst : Staged s p place js) {k : Nat} (hlt : place < k)
    (hle : k ≤ place + js.length) : ∃ j ∈ js, p.occurrence? k = some j.target := by
  induction js generalizing place with
  | nil => exact absurd hle (by simp; omega)
  | cons j js ih =>
    obtain ⟨-, htarget, -, -, hrest⟩ := hst
    rw [List.length_cons] at hle
    rcases Nat.lt_or_ge (place + 1) k with h | h
    · obtain ⟨i, hi, ho⟩ := ih hrest h (by omega)
      exact ⟨i, List.mem_cons_of_mem j hi, ho⟩
    · have : k = place + 1 := by omega
      exact ⟨j, List.mem_cons_self, this ▸ htarget⟩

/-- Joins between occurrences of a plan fit the schema. -/
theorem fitting_of_staged (hs : s.WellFormed) {place : Nat} (hst : Staged s p place js)
    (hbefore : ∀ k ≤ place, ∀ o, p.occurrence? k = some o → o.entity ∈ s.entities) :
    ∀ j ∈ js, j.Fitting s := by
  -- the entities of the first occurrences are in the schema; each join adds its target to them
  induction js generalizing place with
  | nil => exact fun _ h => absurd h List.not_mem_nil
  | cons j js ih =>
    obtain ⟨⟨k, hk, hsource⟩, htarget, hrel, hentity, hrest⟩ := hst
    have hsmem := hbefore k hk _ hsource
    have hrmem : j.relationship ∈ j.source.entity.relationships := List.mem_of_find?_eq_some hrel
    have htmem : j.target.entity ∈ s.entities := List.mem_of_find?_eq_some hentity
    have hfits := hs.targets _ hsmem _ hrmem
    rw [hentity, Option.any_some, Bool.and_eq_true] at hfits
    intro i hi
    rcases List.mem_cons.mp hi with rfl | hi
    · exact ⟨hsmem, hrmem, htmem, hfits.1, hfits.2⟩
    · refine ih hrest (fun k' hk' o ho => ?_) i hi
      rcases Nat.lt_or_ge place k' with h | h
      · have : k' = place + 1 := by omega
        subst this
        cases htarget.symm.trans ho
        exact htmem
      · exact hbefore k' h o ho

theorem fitting_of_root (hs : s.WellFormed) (hroot : p.root ∈ s.entities)
    (hst : Staged s p 0 js) : ∀ j ∈ js, j.Fitting s :=
  fitting_of_staged hs hst fun k hk o ho => by
    have : k = 0 := by omega
    subst this
    cases ho
    exact hroot

/-- A stored row at the place of the root satisfies the condition on its kind exactly if it belongs to
the entity. -/
theorem holds_kindConditions_iff (hs : s.WellFormed) (hdb : db.Sound s) {root : Entity}
    (hroot : root ∈ s.entities) {row : JoinedRow} {r : Row} (hr : r ∈ db.rows root.table)
    (hat : row.rowAt 0 = some r) :
    (∀ k ∈ kindConditions root, k.holds row = true) ↔ root.Owns r := by
  by_cases hhead : root.isFamilyHead = true
  · have hnone : kindConditions root = [] := by
      unfold kindConditions
      cases root.family <;> simp [hhead]
    simp [hnone, Entity.Owns, hhead]
  · obtain ⟨f, hf⟩ := Option.isSome_iff_exists.mp ((hs.subclass root hroot).resolve_left hhead)
    have hkind : kindConditions root =
        [.member false ((rootOccurrence root).columnNamed f.column) [.text f.kind]] := by
      simp [kindConditions, hf, hhead]
    rw [hkind, List.forall_mem_singleton, holds_member_text_iff (hs.kind_text root hroot f hf),
      get_rowAt (o := rootOccurrence root) hat]
    constructor
    · exact fun hsame => .inr ⟨f, hf, Cell.eq_text_of_same (hdb.proper hs hroot hr _) hsame⟩
    · intro howns
      obtain ⟨g, hg, hcell⟩ := howns.resolve_left hhead
      cases hf.symm.trans hg
      rw [hcell]
      exact Cell.same_text f.kind

/-- A match holds a row of the root that belongs to the entity of the root. -/
theorem holdsAt_root (hs : s.WellFormed) (hdb : db.Sound s) (hroot : p.root ∈ s.entities)
    {row : JoinedRow} (hrow : row ∈ p.matched db js) :
    row.HoldsAt s db (rootOccurrence p.root) := by
  obtain ⟨hjoined, hconditions⟩ := List.mem_filter.mp hrow
  obtain ⟨a, ha, rest, rfl⟩ := mem_rows_joined hjoined
  have hstored : ∀ r, JoinedRow.rowAt ((.entity 0, a) :: rest) 0 = some r →
      r ∈ db.rows p.root.table := fun r hr =>
    Option.some.inj ((JoinedRow.rowAt_entity 0 a rest).symm.trans hr) ▸ ha
  refine ⟨hroot, hstored, fun r hr => ?_⟩
  -- a root below the head of its family is selected by kind in the statement
  refine (holds_kindConditions_iff hs hdb hroot (hstored r hr) hr).mp fun k hk => ?_
  exact List.all_eq_true.mp hconditions k (List.mem_append_right _ hk)

theorem target_of_position {place : Nat} (hst : Staged s p place js) {j : ResolvedJoin}
    (hj : j ∈ js) : place < j.target.position ∧ p.occurrence? j.target.position = some j.target := by
  induction js generalizing place with
  | nil => cases hj
  | cons i js ih =>
    obtain ⟨-, htarget, -, -, hrest⟩ := hst
    rcases List.mem_cons.mp hj with rfl | hj
    · have hposition := occurrence?_position htarget
      exact ⟨by omega, hposition ▸ htarget⟩
    · obtain ⟨hlt, ho⟩ := ih hrest hj
      exact ⟨by omega, ho⟩

/-- A joined row of a plan holds a row of its table at each occurrence. -/
theorem stored_of_joined (hst : Staged s p 0 js) {row : JoinedRow}
    (hrow : row ∈ (p.joined js).rows db) {k : Nat} {o : Occurrence} (ho : p.occurrence? k = some o)
    {r : Row} (hr : row.rowAt k = some r) : r ∈ db.rows o.entity.table := by
  obtain ⟨before, after, rfl, -⟩ := List.lookup_eq_some_iff.mp hr
  have hpart : (Owner.entity k, r) ∈ before ++ (Owner.entity k, r) :: after := by simp
  obtain ⟨t, ht, howner, hmem⟩ := Source.rows_part hrow hpart
  rcases tables_chain ht howner with ht | ⟨j, hj, hk, htable⟩
  · cases List.mem_singleton.mp ht
    have hzero : 0 = k := Owner.entity.inj howner
    subst hzero
    cases ho
    exact hmem
  · have htarget := (target_of_position hst hj).2
    rw [hk] at htarget
    cases htarget.symm.trans ho
    exact htable ▸ hmem

/-- A match holds stored rows at all occurrences of the plan. -/
theorem holdsAt_matched (hs : s.WellFormed) (hdb : db.Sound s) (hroot : p.root ∈ s.entities)
    (hst : Staged s p 0 js) {row : JoinedRow} (hrow : row ∈ p.matched db js) {k : Nat}
    (hk : k ≤ js.length) {o : Occurrence} (ho : p.occurrence? k = some o) :
    row.HoldsAt s db o := by
  cases k with
  | zero =>
    cases ho
    exact holdsAt_root hs hdb hroot hrow
  | succ k =>
    obtain ⟨j, hj, htarget⟩ := exists_join hst (Nat.succ_pos k) (by omega)
    have hfit := fitting_of_root hs hroot hst j hj
    have hposition := occurrence?_position ho
    cases htarget.symm.trans ho
    refine ⟨hfit.target, fun r hr => ?_, fun _ _ => .inl hfit.head⟩
    rw [hposition] at hr
    exact stored_of_joined hst (mem_joined_of_matched hrow) ho hr

end Plan
end EntityQuery
