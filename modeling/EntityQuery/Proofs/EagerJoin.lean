import EntityQuery.Proofs.Related
/-!
Joins that keep rows without a match and have no condition. To a row of its source such a join adds
parts with the related rows of the target, one for each way in which they are related, or nothing
where there is no related row.
-/
namespace EntityQuery

/-- The place in a statement that an owner belongs to. -/
def Owner.place : Owner → Nat
  | entity k => k
  | link k => k

namespace JoinedRow

/-- The row of the entity at a place. -/
def rowAt (row : JoinedRow) (k : Nat) : Option Row := List.lookup (.entity k) row

/-- All parts of a row belong to places up to a given one. -/
def UpTo (place : Nat) (row : JoinedRow) : Prop := ∀ part ∈ row, part.1.place ≤ place

/-- All parts of a row belong to places after a given one. -/
def After (place : Nat) (row : JoinedRow) : Prop := ∀ part ∈ row, place < part.1.place

theorem lookup_none {row : JoinedRow} {o : Owner} (h : ∀ part ∈ row, part.1 ≠ o) :
    List.lookup o row = none := by
  rw [List.lookup_eq_none_iff]
  intro part hp
  simpa using (h part hp).symm

theorem rowAt_link (k i : Nat) (a : Row) (row : JoinedRow) :
    rowAt ((.link k, a) :: row) i = rowAt row i := by
  have h : (Owner.entity i == Owner.link k) = false := beq_eq_false_iff_ne.mpr nofun
  simp only [rowAt, List.lookup_cons, h]

theorem rowAt_entity (k : Nat) (a : Row) (row : JoinedRow) :
    rowAt ((.entity k, a) :: row) k = some a := by
  simp [rowAt]

theorem lookup_after {place : Nat} {x : JoinedRow} {o : Owner} (ho : o.place ≤ place)
    (hx : After place x) : List.lookup o x = none := lookup_none fun part hp e => by
  have := hx part hp
  rw [e] at this
  omega

theorem lookup_upTo {place : Nat} {l : JoinedRow} {o : Owner} (ho : place < o.place)
    (hl : UpTo place l) : List.lookup o l = none := lookup_none fun part hp e => by
  have := hl part hp
  rw [e] at this
  omega

theorem lookup_append_after {place : Nat} {l x : JoinedRow} {o : Owner} (ho : o.place ≤ place)
    (hx : After place x) : List.lookup o (l ++ x) = List.lookup o l := by
  rw [List.lookup_append, lookup_after ho hx, Option.or_none]

theorem lookup_append_upTo {place : Nat} {l x : JoinedRow} {o : Owner} (ho : place < o.place)
    (hl : UpTo place l) : List.lookup o (l ++ x) = List.lookup o x := by
  rw [List.lookup_append, lookup_upTo ho hl, Option.none_or]

theorem rowAt_append_after {place k : Nat} {l x : JoinedRow} (hk : k ≤ place)
    (hx : After place x) : rowAt (l ++ x) k = l.rowAt k := lookup_append_after hk hx

theorem rowAt_append_upTo {place k : Nat} {l x : JoinedRow} (hk : place < k) (hl : UpTo place l) :
    rowAt (l ++ x) k = x.rowAt k := lookup_append_upTo hk hl

theorem After.mono {i k : Nat} {x : JoinedRow} (h : After k x) (hik : i ≤ k) : After i x :=
  fun part hp => Nat.lt_of_le_of_lt hik (h part hp)

theorem UpTo.append {i k : Nat} {l x : JoinedRow} (hl : UpTo i l) (hik : i ≤ k)
    (hx : UpTo k x) : UpTo k (l ++ x) := fun part hp => by
  rcases List.mem_append.mp hp with h | h
  · exact Nat.le_trans (hl part h) hik
  · exact hx part h

end JoinedRow

open JoinedRow

theorem Source.mem_additions_outer {db : Database} {right : Source} {on : Predicate}
    {l x : JoinedRow} :
    x ∈ additions db right true on l ↔
      (x ∈ right.rows db ∧ on.holds (l ++ x) = true) ∨
        (x = [] ∧ ∀ y ∈ right.rows db, on.holds (l ++ y) = false) := by
  unfold additions
  by_cases h : ((right.rows db).filter fun r => on.holds (l ++ r)) = []
  · simp only [h, List.isEmpty_nil, Bool.and_self, if_true, List.mem_singleton]
    simp only [List.filter_eq_nil_iff, Bool.not_eq_true] at h
    constructor
    · exact fun hx => .inr ⟨hx, h⟩
    · rintro (⟨hx, ht⟩ | ⟨hx, -⟩)
      · rw [h x hx] at ht
        cases ht
      · exact hx
  · have he : ((right.rows db).filter fun r => on.holds (l ++ r)).isEmpty = false := by
      simpa using h
    simp only [he, Bool.and_false, Bool.false_eq_true, if_false, List.mem_filter]
    constructor
    · exact .inl
    · rintro (hx | ⟨-, hnone⟩)
      · exact hx
      · exact absurd (List.filter_eq_nil_iff.mpr fun y hy => by simp [hnone y hy]) h

namespace Plan

/-- A join that keeps rows without a match and has no condition. -/
def ResolvedJoin.Eager (j : ResolvedJoin) : Prop := j.predicate = .linked none ∧ j.outer = true

/-- A join between entities of the schema, along a link that fits them. -/
structure ResolvedJoin.Fitting (s : Schema) (j : ResolvedJoin) : Prop where
  source : j.source.entity ∈ s.entities
  relationship : j.relationship ∈ j.source.entity.relationships
  target : j.target.entity ∈ s.entities
  head : j.target.entity.isFamilyHead = true
  link : j.relationship.link.fits j.source.entity j.target.entity = true

/-- The rows of the target that a join leads to from a row of its source. -/
abbrev ResolvedJoin.related (db : Database) (j : ResolvedJoin) (r : Row) : List Row :=
  j.relationship.related db j.target.entity r

/-- A part that an eager join finds on its right side: it holds a row of the target. -/
structure ResolvedJoin.Part (db : Database) (j : ResolvedJoin) (l x : JoinedRow) (r y : Row) :
    Prop where
  source : l.rowAt j.source.position = some r
  related : y ∈ j.related db r
  target : x.rowAt j.target.position = some y
  place : ∀ part ∈ x, part.1.place = j.target.position

theorem get_rowAt {row : JoinedRow} {o : Occurrence} {name : String} {r : Row}
    (h : row.rowAt o.position = some r) : row.get (o.columnNamed name) = r.get name := by
  unfold JoinedRow.get Occurrence.columnNamed
  rw [show List.lookup (Owner.entity o.position) row = some r from h]
  simp [Entity.columnNamed_name]

theorem get_rowAt_none {row : JoinedRow} {o : Occurrence} {name : String}
    (h : row.rowAt o.position = none) : row.get (o.columnNamed name) = .null := by
  unfold JoinedRow.get Occurrence.columnNamed
  rw [show List.lookup (Owner.entity o.position) row = none from h]
  rfl

/-- A column of an entity has the value of a cell if the entity has a row, and the row has it. -/
theorem get_same_iff {row : JoinedRow} {o : Occurrence} {name : String} {c : Cell} :
    (row.get (o.columnNamed name)).Same c ↔
      ∃ r, row.rowAt o.position = some r ∧ (r.get name).Same c := by
  cases hr : row.rowAt o.position with
  | some r => simp [get_rowAt hr]
  | none => simp [get_rowAt_none hr, Cell.same_iff]

theorem same_get_iff {row : JoinedRow} {o : Occurrence} {name : String} {c : Cell} :
    c.Same (row.get (o.columnNamed name)) ↔
      ∃ r, row.rowAt o.position = some r ∧ c.Same (r.get name) := by
  cases hr : row.rowAt o.position with
  | some r => simp [get_rowAt hr]
  | none => simp [get_rowAt_none hr, Cell.same_iff]

variable {s : Schema} {db : Database}

theorem rows_source (db : Database) (o : Occurrence) :
    o.source.rows db = (db.rows o.entity.table).map fun r => [(.entity o.position, r)] := rfl

/-- The predicate of a direct link holds where the link relates the rows of the two entities. -/
theorem holds_direct (db : Database) {j : ResolvedJoin} {n : Nat} {on : Predicate} (hfit : j.Fitting s)
    (hlink : linkPredicate j n = .direct on) {row : JoinedRow} {y : Row}
    (hy : row.rowAt j.target.position = some y) :
    on.holds row = true ↔ ∃ r, row.rowAt j.source.position = some r ∧
      j.relationship.link.Relates db r y := by
  have hfits := hfit.link
  cases hlk : j.relationship.link with
  | owns key foreign =>
    simp only [linkPredicate, hlk, LinkPredicate.direct.injEq] at hlink
    rw [hlk, Link.fits] at hfits
    rw [← hlink, holds_equality (by exact hfits), get_rowAt hy, get_same_iff]
    rfl
  | refers foreign key =>
    simp only [linkPredicate, hlk, LinkPredicate.direct.injEq] at hlink
    rw [hlk, Link.fits, Bool.and_eq_true] at hfits
    rw [← hlink, holds_equality hfits.1, get_rowAt hy, same_get_iff]
    rfl
  | through table sourceKey linkSource targetKey linkTarget =>
    simp only [linkPredicate, hlk] at hlink
    cases hlink

/-- An eager join over a direct link. -/
theorem part_direct {j : ResolvedJoin} {n place : Nat} {on : Predicate}
    (hfit : j.Fitting s) (hlink : linkPredicate j n = .direct on)
    (hsource : j.source.position ≤ place) (htarget : j.target.position = place + 1)
    {l : JoinedRow} (hl : UpTo place l) {y : Row} (hy : y ∈ db.rows j.target.entity.table) :
    on.holds (l ++ [(.entity j.target.position, y)]) = true ↔
      ∃ r, j.Part db l [(.entity j.target.position, y)] r y := by
  have hafter : After place [(Owner.entity j.target.position, y)] := by
    intro part hp
    rw [List.mem_singleton.mp hp, htarget]
    exact Nat.lt_succ_self place
  have ht : rowAt (l ++ [(Owner.entity j.target.position, y)]) j.target.position = some y := by
    rw [rowAt_append_upTo (by omega) hl, rowAt_entity]
  rw [holds_direct db hfit hlink ht, rowAt_append_after hsource hafter]
  refine exists_congr fun r => ⟨fun ⟨hr, hrel⟩ => ?_, fun hp => ?_⟩
  · exact ⟨hr, mem_related.mpr ⟨hy, hrel⟩, rowAt_entity _ _ _, by simp [Owner.place]⟩
  · exact ⟨hp.source, (mem_related.mp hp.related).2⟩

/-- What a join finds by a link table: a row of the table, then a row of the target. -/
abbrev ResolvedJoin.linkedPart (j : ResolvedJoin) (k y : Row) : JoinedRow :=
  [(.link j.target.position, k), (.entity j.target.position, y)]

/-- The link table of an eager join over a link table, joined with its target. -/
theorem mem_rows_link {j : ResolvedJoin} {table : String} {n : Nat} {on : Predicate}
    {x : JoinedRow} :
    x ∈ (Source.join (j.linkSource table n) j.target.source false on).rows db ↔
      ∃ k ∈ db.rows table, ∃ y ∈ db.rows j.target.entity.table,
        x = j.linkedPart k y ∧ on.holds x = true := by
  rw [Source.rows_join]
  simp only [ResolvedJoin.linkSource, Source.rows, rows_source, Source.additions, Bool.false_and,
    Bool.false_eq_true, if_false, List.flatMap_map, List.mem_flatMap, List.mem_map,
    List.mem_filter]
  constructor
  · rintro ⟨k, hk, x', ⟨⟨y, hy, rfl⟩, hon⟩, rfl⟩
    exact ⟨k, hk, y, hy, rfl, hon⟩
  · rintro ⟨k, hk, y, hy, rfl, hon⟩
    exact ⟨k, hk, _, ⟨⟨y, hy, rfl⟩, hon⟩, rfl⟩

/-- The column of a link table. -/
def linkColumn (place : Nat) (aliasName name : String) : ColumnRef :=
  ⟨.link place, aliasName, { field := name, name := name, type := .integer }⟩

theorem comparable_link {c : ColumnRef} {place : Nat} {aliasName name : String}
    (h : c.column.type ≠ .text) :
    c.column.type.comparable (linkColumn place aliasName name).column.type = true := by
  simp [ColumnType.comparable, linkColumn, h]

theorem get_linkColumn {row : JoinedRow} {place : Nat} {k : Row} (aliasName name : String)
    (h : List.lookup (.link place) row = some k) :
    row.get (linkColumn place aliasName name) = k.get name := by
  unfold JoinedRow.get
  rw [show List.lookup (linkColumn place aliasName name).owner row = some k from h]
  rfl

section Through

variable {j : ResolvedJoin} {n : Nat} {table sourceKey linkSource targetKey linkTarget : String}
  {toSource toTarget : Predicate} {row : JoinedRow} {k : Row}

/-- The first predicate of a link table holds where its row is linked to that of the source. -/
theorem holds_toSource (hfit : j.Fitting s)
    (hlk : j.relationship.link = .through table sourceKey linkSource targetKey linkTarget)
    (hlink : linkPredicate j n = .through table toSource toTarget)
    (hk : List.lookup (.link j.target.position) row = some k) :
    toSource.holds row = true ↔
      ∃ r, row.rowAt j.source.position = some r ∧ (r.get sourceKey).Same (k.get linkSource) := by
  have hfits := hfit.link
  rw [hlk, Link.fits, Bool.and_eq_true, decide_eq_true_eq, decide_eq_true_eq] at hfits
  simp only [linkPredicate, hlk, LinkPredicate.through.injEq] at hlink
  obtain ⟨-, rfl, -⟩ := hlink
  exact (holds_equality (comparable_link (by exact hfits.1)) row).trans
    (by rw [get_linkColumn _ _ hk, get_same_iff])

/-- The second predicate of a link table holds where its row is linked to that of the target. -/
theorem holds_toTarget (hfit : j.Fitting s)
    (hlk : j.relationship.link = .through table sourceKey linkSource targetKey linkTarget)
    (hlink : linkPredicate j n = .through table toSource toTarget)
    (hk : List.lookup (.link j.target.position) row = some k) :
    toTarget.holds row = true ↔
      ∃ y, row.rowAt j.target.position = some y ∧ (y.get targetKey).Same (k.get linkTarget) := by
  have hfits := hfit.link
  rw [hlk, Link.fits, Bool.and_eq_true, decide_eq_true_eq, decide_eq_true_eq] at hfits
  simp only [linkPredicate, hlk, LinkPredicate.through.injEq] at hlink
  obtain ⟨-, -, rfl⟩ := hlink
  exact (holds_equality (comparable_link (by exact hfits.2)) row).trans
    (by rw [get_linkColumn _ _ hk, get_same_iff])

end Through

/-- What an eager join finds on its right side, under its predicate. -/
structure ResolvedJoin.Finds (db : Database) (j : ResolvedJoin) (right : Source) (on : Predicate)
    (l : JoinedRow) : Prop where
  sound : ∀ x ∈ right.rows db, on.holds (l ++ x) = true → ∃ r y, j.Part db l x r y
  complete : ∀ r, l.rowAt j.source.position = some r → ∀ y ∈ j.related db r,
    ∃ x ∈ right.rows db, on.holds (l ++ x) = true ∧ j.Part db l x r y

theorem finds_direct {j : ResolvedJoin} {n place : Nat} {on : Predicate} (hfit : j.Fitting s)
    (hlink : linkPredicate j n = .direct on) (hsource : j.source.position ≤ place)
    (htarget : j.target.position = place + 1) {l : JoinedRow} (hl : UpTo place l) :
    j.Finds db j.target.source on l where
  sound := by
    intro x hx hon
    rw [rows_source] at hx
    obtain ⟨y, hy, rfl⟩ := List.mem_map.mp hx
    obtain ⟨r, hr⟩ := (part_direct hfit hlink hsource htarget hl hy).mp hon
    exact ⟨r, y, hr⟩
  complete := by
    intro r hr y hy
    have hrow := (mem_related.mp hy).1
    have hpart : j.Part db l [(.entity j.target.position, y)] r y :=
      ⟨hr, hy, rowAt_entity _ _ _, by simp [Owner.place]⟩
    refine ⟨_, ?_, (part_direct hfit hlink hsource htarget hl hrow).mpr ⟨r, hpart⟩, hpart⟩
    rw [rows_source]
    exact List.mem_map.mpr ⟨y, hrow, rfl⟩

theorem finds_through {j : ResolvedJoin} {n place : Nat} {table : String}
    {toSource toTarget : Predicate} (hfit : j.Fitting s)
    (hlink : linkPredicate j n = .through table toSource toTarget)
    (hsource : j.source.position ≤ place) (htarget : j.target.position = place + 1)
    {l : JoinedRow} (hl : UpTo place l) :
    j.Finds db (.join (j.linkSource table n) j.target.source false toTarget) toSource l := by
  obtain ⟨sourceKey, linkSource, targetKey, linkTarget, hlk⟩ := exists_through hlink
  have hafter : ∀ k y, After place (j.linkedPart k y) := fun k y => by
    simp [After, Owner.place, htarget]
  have htargetRow : ∀ k y, (j.linkedPart k y).rowAt j.target.position = some y := fun k y => by
    rw [rowAt_link, rowAt_entity]
  have hplaces : ∀ k y, ∀ part ∈ j.linkedPart k y, part.1.place = j.target.position :=
    fun k y => by simp [Owner.place]
  have hlinkRow : ∀ k y, List.lookup (.link j.target.position) (l ++ j.linkedPart k y) = some k :=
    fun k y => by
      rw [lookup_append_upTo (o := .link j.target.position) (by simp [Owner.place, htarget]) hl]
      simp
  have htoSource : ∀ k y, toSource.holds (l ++ j.linkedPart k y) = true ↔
      ∃ r, l.rowAt j.source.position = some r ∧ (r.get sourceKey).Same (k.get linkSource) :=
    fun k y => by
      rw [holds_toSource hfit hlk hlink (hlinkRow k y), rowAt_append_after hsource (hafter k y)]
  have htoTarget : ∀ k y, toTarget.holds (j.linkedPart k y) = true ↔
      (y.get targetKey).Same (k.get linkTarget) := fun k y => by
    rw [holds_toTarget (k := k) hfit hlk hlink (by simp), htargetRow]
    simp
  constructor
  · intro x hx hon
    obtain ⟨k, hk, y, hy, rfl, hon'⟩ := mem_rows_link.mp hx
    obtain ⟨r, hr, hsame⟩ := (htoSource k y).mp hon
    refine ⟨r, y, hr, mem_related.mpr ⟨hy, ?_⟩, htargetRow k y, hplaces k y⟩
    rw [hlk]
    exact ⟨k, hk, hsame, (htoTarget k y).mp hon'⟩
  · intro r hr y hy
    obtain ⟨hrow, hrel⟩ := mem_related.mp hy
    rw [hlk] at hrel
    obtain ⟨k, hk, h1, h2⟩ := hrel
    exact ⟨_, mem_rows_link.mpr ⟨k, hk, y, hrow, rfl, (htoTarget k y).mpr h2⟩,
      (htoSource k y).mpr ⟨r, hr, h1⟩, hr, hy, htargetRow k y, hplaces k y⟩

/-- An eager join looks for related rows on its right side. -/
theorem finds_eager (db : Database) {j : ResolvedJoin} (n : Nat) {place : Nat} (he : j.Eager)
    (hfit : j.Fitting s) (hsource : j.source.position ≤ place) (htarget : j.target.position = place + 1) :
    ∃ right on, (∀ l, j.additions db n l = Source.additions db right true on l) ∧
      ∀ l, UpTo place l → j.Finds db right on l := by
  unfold ResolvedJoin.additions
  rw [he.1, he.2]
  cases hlink : linkPredicate j n with
  | direct on =>
    exact ⟨j.target.source, on, fun _ => rfl, fun l hl =>
      finds_direct hfit hlink hsource htarget hl⟩
  | through table toSource toTarget =>
    exact ⟨.join (j.linkSource table n) j.target.source false toTarget, toSource, fun _ => rfl,
      fun l hl => finds_through hfit hlink hsource htarget hl⟩

/-- What an eager join adds to a row: a part with a related row, or nothing if there is none. -/
theorem mem_additions {j : ResolvedJoin} {n place : Nat} (he : j.Eager) (hfit : j.Fitting s)
    (hsource : j.source.position ≤ place) (htarget : j.target.position = place + 1)
    {l x : JoinedRow} (hl : UpTo place l) (h : x ∈ j.additions db n l) :
    (∃ r y, j.Part db l x r y) ∨
      (x = [] ∧ ∀ r, l.rowAt j.source.position = some r → j.related db r = []) := by
  obtain ⟨right, on, hadd, hfinds⟩ := finds_eager db n he hfit hsource htarget
  rw [hadd, Source.mem_additions_outer] at h
  rcases h with ⟨hx, hon⟩ | ⟨rfl, hnone⟩
  · exact .inl ((hfinds l hl).sound x hx hon)
  · refine .inr ⟨rfl, fun r hr => List.eq_nil_iff_forall_not_mem.mpr fun y hy => ?_⟩
    obtain ⟨x, hx, hon, -⟩ := (hfinds l hl).complete r hr y hy
    rw [hnone x hx] at hon
    cases hon

theorem exists_addition {j : ResolvedJoin} {n place : Nat} (he : j.Eager) (hfit : j.Fitting s)
    (hsource : j.source.position ≤ place) (htarget : j.target.position = place + 1)
    {l : JoinedRow} (hl : UpTo place l) {r y : Row} (hr : l.rowAt j.source.position = some r)
    (hy : y ∈ j.related db r) : ∃ x ∈ j.additions db n l, j.Part db l x r y := by
  obtain ⟨right, on, hadd, hfinds⟩ := finds_eager db n he hfit hsource htarget
  obtain ⟨x, hx, hon, hpart⟩ := (hfinds l hl).complete r hr y hy
  exact ⟨x, by rw [hadd, Source.mem_additions_outer]; exact .inl ⟨hx, hon⟩, hpart⟩

end Plan
end EntityQuery
