import EntityQuery.Proofs.OppositeFilters
/-!
Compound filters. A range keeps the rows that both of its bounds keep, and a list the rows that its values
keep one by one, as long as a column compares with a value of the list as with the value alone: all values
of a list are bound under the type of the first.
-/
namespace EntityQuery

/-! ### Cells and lists of cells -/

namespace Cell

theorem place_null_iff {c : Cell} : c.place.1 = 0 ↔ c = .null := by
  cases c with
  | null => exact iff_of_true rfl rfl
  | _ => exact iff_of_false (Nat.succ_ne_zero _) (by simp)

/-- Cells at one place compare alike with every cell. -/
theorem compareCells_congr {a b b' : Cell} (ha : a.Proper) (hb : b.Proper) (hb' : b'.Proper)
    (h : b.order b' = .eq) (op : Comparison) : compareCells op a b = compareCells op a b' := by
  have hplace : b.place = b'.place := (order_eq_eq hb hb').mp h
  have hnull : b.isNull = b'.isNull := by
    unfold isNull
    rw [decide_eq_decide, ← place_null_iff, ← place_null_iff, hplace]
  have horder : a.order b = a.order b' := by
    rw [order_eq_comparePlaces hb hb'] at h
    rw [order_eq_comparePlaces ha hb, order_eq_comparePlaces ha hb', Std.TransCmp.congr_right h]
  unfold compareCells
  rw [hnull, horder]

/-- A cell between two others keeps them in order. -/
theorem order_ne_gt_of_between {a low high : Cell} (ha : a.Proper) (hlow : low.Proper)
    (hhigh : high.Proper) (h : compareCells .greaterOrEqual a low = some true)
    (h' : compareCells .lessOrEqual a high = some true) : low.order high ≠ .gt := by
  have hholds : ∀ {op b}, compareCells op a b = some true → op.holds (a.order b) = true := by
    intro op b hb
    unfold compareCells at hb
    split at hb
    · cases hb
    · exact Option.some.inj hb
  have hge : (a.comparePlaces low).isGE = true := by
    rw [← order_eq_comparePlaces ha hlow]
    simpa [Comparison.holds, Ordering.isGE_iff_ne_lt] using hholds h
  have hle : (a.comparePlaces high).isLE = true := by
    rw [← order_eq_comparePlaces ha hhigh]
    simpa [Comparison.holds, Ordering.isLE_iff_ne_gt] using hholds h'
  rw [order_eq_comparePlaces hlow hhigh]
  refine Ordering.isLE_iff_ne_gt.mp ?_
  exact Std.TransCmp.isLE_trans (Std.OrientedCmp.isGE_iff_isLE.mp hge) hle

end Cell

theorem Truth.or_eq_true {a b : Truth} : Truth.or a b = some true ↔ a = some true ∨ b = some true := by
  rcases a with _ | _ | _ <;> rcases b with _ | _ | _ <;> simp [Truth.or]

theorem Truth.or_eq_false {a b : Truth} :
    Truth.or a b = some false ↔ a = some false ∧ b = some false := by
  rcases a with _ | _ | _ <;> rcases b with _ | _ | _ <;> simp [Truth.or]

theorem memberOf_eq_true {a : Cell} {bs : List Cell} :
    memberOf a bs = some true ↔ ∃ b ∈ bs, compareCells .equal a b = some true := by
  induction bs with
  | nil => simp [memberOf]
  | cons b bs ih => simp only [memberOf, Truth.or_eq_true, ih, List.exists_mem_cons_iff]

theorem memberOf_eq_false {a : Cell} {bs : List Cell} :
    memberOf a bs = some false ↔ ∀ b ∈ bs, compareCells .equal a b = some false := by
  induction bs with
  | nil => simp [memberOf]
  | cons b bs ih => simp only [memberOf, Truth.or_eq_false, ih, List.forall_mem_cons]

/-! ### What a column compares with -/

/-- The cell that a column of a type compares with for a value alone. -/
def comparedCell (t : ColumnType) (v : Value) : Cell := alignedWith t (singleCell t v)

/-- The cell that a column of a type compares with for a value of a list. -/
def listedCell (t : ColumnType) (vs : List Value) (v : Value) : Cell :=
  alignedWith t (boundCell (.ofSeveral t vs) v)

namespace Value

/-- A value exceeds another in the order in which a column of a type compares with them. -/
def Exceeds (t : ColumnType) (v w : Value) : Prop := (comparedCell t v).order (comparedCell t w) = .gt

instance (t : ColumnType) : DecidableRel (Exceeds t) := fun _ _ => inferInstanceAs (Decidable (_ = _))

/-- A column of a type compares with the values of a list as with each of them alone. -/
def BoundAlike (t : ColumnType) (vs : List Value) : Prop :=
  ∀ v ∈ vs, (listedCell t vs v).order (comparedCell t v) = .eq

instance (t : ColumnType) : DecidablePred (BoundAlike t) := fun vs =>
  inferInstanceAs (Decidable (∀ v ∈ vs, _))

end Value

theorem proper_boundCell (t : ParameterType) (v : Value) : (boundCell t v).Proper := by
  unfold boundCell
  split
  · rename_i c h
    obtain ⟨w, -, hw⟩ := Option.map_eq_some_iff.mp h
    exact proper_storedCell hw
  · trivial

theorem proper_comparedCell (t : ColumnType) (v : Value) : (comparedCell t v).Proper :=
  proper_alignedWith (proper_boundCell _ v)

theorem proper_listedCell (t : ColumnType) (vs : List Value) (v : Value) : (listedCell t vs v).Proper :=
  proper_alignedWith (proper_boundCell _ v)

/-- A value that decides the type of its list is bound as it is alone. -/
theorem listedCell_of_sameType {t : ColumnType} {vs : List Value} {v : Value}
    (h : ParameterType.ofSingle t v = .ofSeveral t vs) : listedCell t vs v = comparedCell t v := by
  unfold listedCell comparedCell singleCell
  rw [h]

/-- Values that decide one type are bound alike. -/
theorem Value.boundAlike_of_sameType {t : ColumnType} {vs : List Value}
    (h : ∀ v ∈ vs, ParameterType.ofSingle t v = .ofSeveral t vs) : BoundAlike t vs := fun v hv => by
  rw [listedCell_of_sameType (h v hv)]
  exact (Cell.order_eq_eq (proper_comparedCell t v) (proper_comparedCell t v)).mpr rfl

/-! ### Predicates of compound operators -/

theorem Parameter.not_binds_constant (t : ParameterType) (b : Bool) :
    ¬ (⟨t, .constant b⟩ : Parameter).Binds := by
  rintro ⟨cell, hcell⟩
  cases t <;> cases hcell

namespace Predicate

variable {c : ColumnRef} {q low high : Predicate} {row : JoinedRow}

/-- The predicate of a comparison compares the column with its value, written into it or bound. -/
theorem eval_comparison {op : Comparison} {v : Value} (hnull : v ≠ .null) (hconstant : ∀ b, v ≠ .constant b)
    (h : Operator.comparison op c v = .ok q) (row : JoinedRow) :
    q.eval row = compareCells op (row.get c) (comparedCell c.column.type v) := by
  cases v with
  | null => exact absurd rfl hnull
  | constant b => exact absurd rfl (hconstant b)
  | boolean b => cases op <;> cases h <;> rfl
  | _ =>
    cases h
    rfl

/-- A range is both of its bounds. -/
theorem holds_between_iff {lo hi : Value} (hlo : Operator.comparison .greaterOrEqual c lo = .ok low)
    (hhi : Operator.comparison .lessOrEqual c hi = .ok high) :
    (between c lo hi).holds row = true ↔ low.holds row = true ∧ high.holds row = true := by
  have hlow := eval_comparison (by rintro rfl; cases hlo) (by rintro b rfl; cases hlo) hlo row
  have hhigh := eval_comparison (by rintro rfl; cases hhi) (by rintro b rfl; cases hhi) hhi row
  simp only [holds, beq_iff_eq, hlow, hhigh]
  exact Truth.and_eq_true

/-- No row is in a range whose lower bound exceeds the upper one. -/
theorem not_holds_between {lo hi : Value} (hrow : (row.get c).Proper)
    (hexceeds : lo.Exceeds c.column.type hi) : (between c lo hi).holds row = false := by
  refine Bool.eq_false_iff.mpr fun hholds => ?_
  obtain ⟨hlow, hhigh⟩ := Truth.and_eq_true.mp (beq_iff_eq.mp hholds)
  exact Cell.order_ne_gt_of_between hrow (proper_comparedCell _ lo) (proper_comparedCell _ hi) hlow hhigh
    hexceeds

variable {vs : List Value}

/-- Where values are bound alike, the column compares with those of the list as with each alone. -/
theorem compareCells_listed (hrow : (row.get c).Proper) (halike : Value.BoundAlike c.column.type vs)
    {v : Value} (hv : v ∈ vs) :
    compareCells .equal (row.get c) (listedCell c.column.type vs v) =
      compareCells .equal (row.get c) (comparedCell c.column.type v) :=
  Cell.compareCells_congr hrow (proper_listedCell _ vs v) (proper_comparedCell _ v) (halike v hv) _

theorem memberOf_listed (c : ColumnRef) (vs : List Value) (row : JoinedRow) :
    memberOf (row.get c) ((severalCells c.column.type vs).map (alignedWith c.column.type)) =
      memberOf (row.get c) (vs.map (listedCell c.column.type vs)) := by
  rw [severalCells, List.map_map]
  rfl

/-- A column is in a list where it equals one of the values. -/
theorem holds_member_iff (hrow : (row.get c).Proper) (halike : Value.BoundAlike c.column.type vs) :
    (member false c vs).holds row = true ↔
      ∃ v ∈ vs, compareCells .equal (row.get c) (comparedCell c.column.type v) = some true := by
  rw [holds, beq_iff_eq, eval, memberOf_listed]
  simp only [negatedIf, Bool.false_eq_true, if_false, memberOf_eq_true, List.mem_map,
    exists_exists_and_eq_and]
  exact exists_congr fun v => and_congr_right fun hv => by rw [compareCells_listed hrow halike hv]

/-- A column is not in a list where it differs from each of the values. -/
theorem holds_notMember_iff (hrow : (row.get c).Proper) (halike : Value.BoundAlike c.column.type vs) :
    (member true c vs).holds row = true ↔
      ∀ v ∈ vs, compareCells .notEqual (row.get c) (comparedCell c.column.type v) = some true := by
  have hnot : ∀ t : Truth, t.not = some true ↔ t = some false := by
    rintro (_ | _ | _) <;> simp [Truth.not]
  rw [holds, beq_iff_eq, eval, memberOf_listed]
  simp only [negatedIf, if_true, hnot, memberOf_eq_false, List.forall_mem_map]
  refine forall_congr' fun v => forall_congr' fun hv => ?_
  rw [compareCells_listed hrow halike hv, show Comparison.notEqual = Comparison.equal.opposite from rfl,
    compareCells_opposite, hnot]

end Predicate

namespace Repository

open Plan

variable {s : Schema} {db : Database} {r : Repository} {d : Descriptor} {f : String} {c : Column}

/-- The cell of a stored row of the root is one that tables can hold. -/
theorem proper_get_root (hs : s.WellFormed) (hdb : db.Sound s) {root : Entity} (hroot : root ∈ s.entities)
    {x : Row} (hx : x ∈ db.rows root.table) (name : String) (c : Column) :
    (JoinedRow.get [(.entity 0, x)] ⟨.entity 0, name, c⟩).Proper :=
  hdb.proper hs hroot hx c.name

/-! ### What compound filters list -/

/-- An answer with as many items as the root has stored rows lists all of them. -/
theorem ListsRoots.mem_of_length {root : Entity} {a : Answer} {rs : List Row} {items : List Item}
    (h : ListsRoots db root a rs) (hitems : a.fetched = .list items)
    (hlength : (db.rows root.table).length ≤ items.length) {x : Row} (hx : x ∈ db.rows root.table) :
    x ∈ rs := by
  obtain ⟨known, hknown, hstands⟩ := h.items
  cases hknown.symm.trans hitems
  have hsub : List.Subperm rs (db.rows root.table) := h.nodup.subperm h.stored
  exact (hsub.perm_of_length_le (hstands.length_eq ▸ hlength)).mem_iff.mpr hx

/-- An answer lists the rows that two others both list. -/
def ListsBoth (db : Database) (root : Entity) (a b b' : Answer) : Prop :=
  ∃ rs ts us, ListsRoots db root a rs ∧ ListsRoots db root b ts ∧ ListsRoots db root b' us ∧
    ∀ x, x ∈ rs ↔ x ∈ ts ∧ x ∈ us

/-- An answer lists the rows that the answer for some value of a list lists. -/
def ListsUnion (db : Database) (root : Entity) (vs : List Value) (a : Answer) (bs : Value → Answer) :
    Prop :=
  ∃ rs, ∃ ts : Value → List Row, ListsRoots db root a rs ∧ (∀ v ∈ vs, ListsRoots db root (bs v) (ts v)) ∧
    ∀ x, x ∈ rs ↔ ∃ v ∈ vs, x ∈ ts v

/-- An answer lists the rows that the answers for all values of a list list. -/
def ListsCommon (db : Database) (root : Entity) (vs : List Value) (a : Answer) (bs : Value → Answer) :
    Prop :=
  ∃ rs, ∃ ts : Value → List Row, ListsRoots db root a rs ∧ (∀ v ∈ vs, ListsRoots db root (bs v) (ts v)) ∧
    ∀ x, x ∈ rs ↔ ∀ v ∈ vs, x ∈ ts v

/-- How the compound operators on a field of the root answer, by the operators on single values. -/
structure Decomposes (s : Schema) (db : Database) (r : Repository) (d : Descriptor) (f : String)
    (c : Column) : Prop where
  range : ∀ lo hi a low high, filteredAnswer s db r d f "between" (.list [lo, hi]) = .ok a →
    filteredAnswer s db r d f "gte" lo = .ok low → filteredAnswer s db r d f "lte" hi = .ok high →
    ListsBoth db r.builder.root a low high ∧
      (lo.Exceeds c.type hi → ListsRoots db r.builder.root a [])
  member : ∀ vs a bs, (∀ v ∈ vs, v ≠ .null) → Value.BoundAlike c.type vs →
    filteredAnswer s db r d f "in" (.list vs) = .ok a →
    (∀ v ∈ vs, filteredAnswer s db r d f "eq" v = .ok (bs v)) → ListsUnion db r.builder.root vs a bs
  notMember : ∀ vs a bs, vs ≠ [] → (∀ v ∈ vs, v ≠ .null) → Value.BoundAlike c.type vs →
    filteredAnswer s db r d f "notin" (.list vs) = .ok a →
    (∀ v ∈ vs, filteredAnswer s db r d f "neq" v = .ok (bs v)) → ListsCommon db r.builder.root vs a bs
  notEmpty : ∀ a, filteredAnswer s db r d f "notin" (.list []) = .ok a →
    ∃ rs, ListsRoots db r.builder.root a rs ∧
      ∀ x, x ∈ rs ↔ x ∈ db.rows r.builder.root.table ∧ r.builder.root.Owns x
  /-- A single value acts as the list of itself. -/
  single : ∀ op ∈ ["in", "notin"], ∀ v : Value, v.items? = none →
    filteredAnswer s db r d f op v = filteredAnswer s db r d f op (.list [v])
  tuple : ∀ op ∈ ["in", "notin", "between"], ∀ vs,
    filteredAnswer s db r d f op (.tuple vs) = filteredAnswer s db r d f op (.list vs)
  set : ∀ op ∈ ["in", "notin"], ∀ vs,
    filteredAnswer s db r d f op (.set vs) = filteredAnswer s db r d f op (.list vs)

/-- A compound operator reads of its value only the items. -/
theorem filteredAnswer_items (hids : s.Identifiers) (hroot : r.builder.root ∈ s.entities)
    (hoperators : r.builder.operators.HasBuiltIn) (hc : r.builder.root.column? f = some c) {op : String}
    (hop : op ∈ ["in", "notin", "between"]) {v w : Value} (h : v.asItems = w.asItems) :
    filteredAnswer s db r d f op v = filteredAnswer s db r d f op w := by
  have hcongr : ∀ {o : Operator}, OperatorTable.builtIn.resolve op = .ok o →
      (∀ column, o.apply column v = o.apply column w) → ':' ∉ op.toList →
      filteredAnswer s db r d f op v = filteredAnswer s db r d f op w := fun ho happly hcolon =>
    filteredAnswer_congr hids hroot hoperators hc ho ho hcolon hcolon happly
  simp only [List.mem_cons, List.not_mem_nil, or_false] at hop
  rcases hop with rfl | rfl | rfl
  · exact hcongr (o := .isIn) rfl (fun column => by simp only [Operator.apply, h]) (by decide)
  · exact hcongr (o := .isNotIn) rfl (fun column => by simp only [Operator.apply, h]) (by decide)
  · exact hcongr (o := .between) rfl
      (fun column => by simp only [Operator.apply, Operator.betweenBounds, h]) (by decide)

section

variable (hs : s.WellFormed) (hdb : db.Sound s) (hids : s.Identifiers)
  (hroot : r.builder.root ∈ s.entities) (hoperators : r.builder.operators.HasBuiltIn)
  (hd : d.DistinctAliases r.builder.root) (houter : d.Outer) (hlimit : d.limit = none)
  (hoffset : d.offset = none) (hindex : d.indexBy = none) (hf : r.ReadsAfresh d)
  (hc : r.builder.root.column? f = some c)

include hs hdb hids hroot hoperators hd houter hlimit hoffset hindex hf hc

/-- What a fetch lists that is filtered by a built-in operator on a column of the root. -/
theorem fetchAll_builtIn {op : String} {o : Operator} (ho : OperatorTable.builtIn.resolve op = .ok o)
    (hop : ':' ∉ op.toList) {v : Value} {a : Answer} (ha : filteredAnswer s db r d f op v = .ok a) :
    ∃ q rs, o.apply ⟨.entity 0, r.builder.root.aliasName, c⟩ v = .ok q ∧ q.Binds ∧
      ListsRoots db r.builder.root a rs ∧ ∀ x, x ∈ rs ↔
        (x ∈ db.rows r.builder.root.table ∧ r.builder.root.Owns x) ∧ q.holds [(.entity 0, x)] = true := by
  obtain ⟨o', q, rs, ho', hq, hbinds, hrs, hmem⟩ :=
    fetchAll_filteredBy hs hdb hids hroot hd houter hlimit hoffset hindex hf hc hop ha
  obtain rfl := OperatorTable.eq_of_resolve hoperators ho' ho
  exact ⟨q, rs, hq, hbinds, hrs, hmem⟩

/-- What a fetch lists that is filtered by a comparison with a value. -/
theorem fetchAll_comparison {op : String} {o : Operator} {comparison : Comparison}
    (ho : OperatorTable.builtIn.resolve op = .ok o) (happly : o.apply = Operator.comparison comparison)
    (hop : ':' ∉ op.toList) {v : Value} (hnull : v ≠ .null) (hconstant : ∀ b, v ≠ .constant b) {a : Answer}
    (ha : filteredAnswer s db r d f op v = .ok a) :
    ∃ rs, ListsRoots db r.builder.root a rs ∧ ∀ x, x ∈ rs ↔
      (x ∈ db.rows r.builder.root.table ∧ r.builder.root.Owns x) ∧
        compareCells comparison (x.get c.name) (comparedCell c.type v) = some true := by
  obtain ⟨q, rs, hq, -, hrs, hmem⟩ :=
    fetchAll_builtIn hs hdb hids hroot hoperators hd houter hlimit hoffset hindex hf hc ho hop ha
  rw [happly] at hq
  refine ⟨rs, hrs, fun x => ?_⟩
  rw [hmem, Predicate.holds, beq_iff_eq, Predicate.eval_comparison hnull hconstant hq, get_root]

/-- A range lists what both of its bounds list, and nothing if the lower bound exceeds the upper one. -/
theorem listsBoth_between {lo hi : Value} {a low high : Answer}
    (ha : filteredAnswer s db r d f "between" (.list [lo, hi]) = .ok a)
    (hlow : filteredAnswer s db r d f "gte" lo = .ok low)
    (hhigh : filteredAnswer s db r d f "lte" hi = .ok high) :
    ListsBoth db r.builder.root a low high ∧
      (lo.Exceeds c.type hi → ListsRoots db r.builder.root a []) := by
  obtain ⟨q, rs, hq, -, hrs, hmem⟩ := fetchAll_builtIn hs hdb hids hroot hoperators hd houter hlimit hoffset
    hindex hf hc (o := .between) rfl (by decide) ha
  obtain ⟨p, ts, hp, -, hts, hmem'⟩ := fetchAll_builtIn hs hdb hids hroot hoperators hd houter hlimit
    hoffset hindex hf hc (o := .greaterOrEqual) rfl (by decide) hlow
  obtain ⟨p', us, hp', -, hus, hmem''⟩ := fetchAll_builtIn hs hdb hids hroot hoperators hd houter hlimit
    hoffset hindex hf hc (o := .lessOrEqual) rfl (by decide) hhigh
  cases hq
  constructor
  · refine ⟨rs, ts, us, hrs, hts, hus, fun x => ?_⟩
    rw [hmem, hmem', hmem'', Predicate.holds_between_iff hp hp', ← and_and_left]
  · intro hexceeds
    have hnone : rs = [] := List.eq_nil_iff_forall_not_mem.mpr fun x hx => by
      obtain ⟨⟨hstored, -⟩, hholds⟩ := (hmem x).mp hx
      have hproper := proper_get_root hs hdb hroot hstored r.builder.root.aliasName c
      exact Bool.false_ne_true ((Predicate.not_holds_between hproper hexceeds).symm.trans hholds)
    exact hnone ▸ hrs

/-- The comparisons of a column with the values of a list, each of which the list binds. -/
theorem fetchAll_comparisons {op : String} {o : Operator} {comparison : Comparison}
    (ho : OperatorTable.builtIn.resolve op = .ok o) (happly : o.apply = Operator.comparison comparison)
    (hop : ':' ∉ op.toList) {vs : List Value} (hnull : ∀ v ∈ vs, v ≠ .null)
    (hbinds : ∀ p ∈ Parameter.several ⟨.entity 0, r.builder.root.aliasName, c⟩ vs, p.Binds)
    {bs : Value → Answer} (hbs : ∀ v ∈ vs, filteredAnswer s db r d f op v = .ok (bs v)) :
    ∃ ts : Value → List Row, ∀ v ∈ vs, ListsRoots db r.builder.root (bs v) (ts v) ∧ ∀ x, x ∈ ts v ↔
      (x ∈ db.rows r.builder.root.table ∧ r.builder.root.Owns x) ∧
        compareCells comparison (x.get c.name) (comparedCell c.type v) = some true := by
  have hone : ∀ v ∈ vs, ∃ ts, ListsRoots db r.builder.root (bs v) ts ∧ ∀ x, x ∈ ts ↔
      (x ∈ db.rows r.builder.root.table ∧ r.builder.root.Owns x) ∧
        compareCells comparison (x.get c.name) (comparedCell c.type v) = some true := fun v hv => by
    have hconstant : ∀ b, v ≠ .constant b := by
      rintro b rfl
      exact Parameter.not_binds_constant _ b (hbinds _ (List.mem_map_of_mem hv))
    exact fetchAll_comparison hs hdb hids hroot hoperators hd houter hlimit hoffset hindex hf hc ho happly
      hop (hnull v hv) hconstant (hbs v hv)
  choose! ts hts using hone
  exact ⟨ts, hts⟩

/-- A list keeps the rows that one of its values keeps. -/
theorem listsUnion_member {vs : List Value} (hnull : ∀ v ∈ vs, v ≠ .null)
    (halike : Value.BoundAlike c.type vs) {a : Answer} {bs : Value → Answer}
    (ha : filteredAnswer s db r d f "in" (.list vs) = .ok a)
    (hbs : ∀ v ∈ vs, filteredAnswer s db r d f "eq" v = .ok (bs v)) :
    ListsUnion db r.builder.root vs a bs := by
  obtain ⟨q, rs, hq, hbinds, hrs, hmem⟩ := fetchAll_builtIn hs hdb hids hroot hoperators hd houter hlimit
    hoffset hindex hf hc (o := .isIn) rfl (by decide) ha
  cases hq
  obtain ⟨ts, hts⟩ := fetchAll_comparisons hs hdb hids hroot hoperators hd houter hlimit hoffset hindex hf
    hc (o := .equal) rfl rfl (by decide) hnull hbinds hbs
  refine ⟨rs, ts, hrs, fun v hv => (hts v hv).1, fun x => ?_⟩
  rw [hmem]
  constructor
  · rintro ⟨hstored, hholds⟩
    have hproper := proper_get_root hs hdb hroot hstored.1 r.builder.root.aliasName c
    obtain ⟨v, hv, hequal⟩ := (Predicate.holds_member_iff hproper halike).mp hholds
    exact ⟨v, hv, ((hts v hv).2 x).mpr ⟨hstored, hequal⟩⟩
  · rintro ⟨v, hv, hx⟩
    obtain ⟨hstored, hequal⟩ := ((hts v hv).2 x).mp hx
    have hproper := proper_get_root hs hdb hroot hstored.1 r.builder.root.aliasName c
    exact ⟨hstored, (Predicate.holds_member_iff hproper halike).mpr ⟨v, hv, hequal⟩⟩

/-- The negation of a list that has values keeps the rows that differ from each of them. -/
theorem listsCommon_notMember {vs : List Value} (hne : vs ≠ []) (hnull : ∀ v ∈ vs, v ≠ .null)
    (halike : Value.BoundAlike c.type vs) {a : Answer} {bs : Value → Answer}
    (ha : filteredAnswer s db r d f "notin" (.list vs) = .ok a)
    (hbs : ∀ v ∈ vs, filteredAnswer s db r d f "neq" v = .ok (bs v)) :
    ListsCommon db r.builder.root vs a bs := by
  obtain ⟨q, rs, hq, hbinds, hrs, hmem⟩ := fetchAll_builtIn hs hdb hids hroot hoperators hd houter hlimit
    hoffset hindex hf hc (o := .isNotIn) rfl (by decide) ha
  cases hq
  obtain ⟨ts, hts⟩ := fetchAll_comparisons hs hdb hids hroot hoperators hd houter hlimit hoffset hindex hf
    hc (o := .notEqual) rfl rfl (by decide) hnull hbinds hbs
  refine ⟨rs, ts, hrs, fun v hv => (hts v hv).1, fun x => ?_⟩
  rw [hmem]
  constructor
  · rintro ⟨hstored, hholds⟩ v hv
    have hproper := proper_get_root hs hdb hroot hstored.1 r.builder.root.aliasName c
    exact ((hts v hv).2 x).mpr ⟨hstored, (Predicate.holds_notMember_iff hproper halike).mp hholds v hv⟩
  · intro hall
    obtain ⟨first, hfirst⟩ := List.exists_mem_of_ne_nil vs hne
    obtain ⟨hstored, -⟩ := ((hts first hfirst).2 x).mp (hall first hfirst)
    have hproper := proper_get_root hs hdb hroot hstored.1 r.builder.root.aliasName c
    exact ⟨hstored, (Predicate.holds_notMember_iff hproper halike).mpr fun v hv =>
      (((hts v hv).2 x).mp (hall v hv)).2⟩

/-- The negation of the empty list keeps every row of the root. -/
theorem listsAll_notEmpty {a : Answer} (ha : filteredAnswer s db r d f "notin" (.list []) = .ok a) :
    ∃ rs, ListsRoots db r.builder.root a rs ∧
      ∀ x, x ∈ rs ↔ x ∈ db.rows r.builder.root.table ∧ r.builder.root.Owns x := by
  obtain ⟨q, rs, hq, -, hrs, hmem⟩ := fetchAll_builtIn hs hdb hids hroot hoperators hd houter hlimit
    hoffset hindex hf hc (o := .isNotIn) rfl (by decide) ha
  cases hq
  exact ⟨rs, hrs, fun x => (hmem x).trans (and_iff_left rfl)⟩

end

/-- Compound operators decompose: a range is both of its bounds, a list whose values are bound alike is all
of its values, and single values, tuples and sets are read as lists. -/
theorem fetchAll_compound (hs : s.WellFormed) (hdb : db.Sound s) (hids : s.Identifiers)
    (hroot : r.builder.root ∈ s.entities) (hoperators : r.builder.operators.HasBuiltIn)
    (hd : d.DistinctAliases r.builder.root) (houter : d.Outer) (hlimit : d.limit = none)
    (hoffset : d.offset = none) (hindex : d.indexBy = none) (hf : r.ReadsAfresh d)
    (hc : r.builder.root.column? f = some c) : Decomposes s db r d f c where
  range _ _ _ _ _ ha hlow hhigh :=
    listsBoth_between hs hdb hids hroot hoperators hd houter hlimit hoffset hindex hf hc ha hlow hhigh
  member _ _ _ hnull halike ha hbs :=
    listsUnion_member hs hdb hids hroot hoperators hd houter hlimit hoffset hindex hf hc hnull halike ha hbs
  notMember _ _ _ hne hnull halike ha hbs :=
    listsCommon_notMember hs hdb hids hroot hoperators hd houter hlimit hoffset hindex hf hc hne hnull
      halike ha hbs
  notEmpty _ ha :=
    listsAll_notEmpty hs hdb hids hroot hoperators hd houter hlimit hoffset hindex hf hc ha
  single op hop v hv := by
    refine filteredAnswer_items hids hroot hoperators hc (List.mem_append_left ["between"] hop) ?_
    unfold Value.asItems
    rw [hv]
    rfl
  tuple _ hop _ := filteredAnswer_items hids hroot hoperators hc hop rfl
  set op hop _ :=
    filteredAnswer_items hids hroot hoperators hc (List.mem_append_left ["between"] hop) rfl

/-- What articles answer under an operator on their views. -/
def articlesByViews (op : String) (v : Value) : Except QueryError Answer :=
  filteredAnswer Model.sample Model.sampleRows (ofRoot Model.Blog.article) {} "views" op v

theorem exists_articlesByViews (op : String) (v : Value)
    (h : (readInOrder? Model.sample Model.sampleRows (ofRoot Model.Blog.article)
      (Descriptor.filteredBy ("views" ++ ":" ++ op) v {})).isSome = true) :
    ∃ a, articlesByViews op v = .ok a := by
  obtain ⟨fetched, hfetched⟩ := Option.isSome_iff_exists.mp h
  exact ⟨_, fetchAll_inOrder rfl rfl hfetched⟩

theorem compound_articlesByViews : ∃ a low high b bs e es rest,
    articlesByViews "between" (.list [.integer 15, .integer 40]) = .ok a ∧
    articlesByViews "gte" (.integer 15) = .ok low ∧ articlesByViews "lte" (.integer 40) = .ok high ∧
    ListsBoth Model.sampleRows Model.Blog.article a low high ∧
    articlesByViews "in" (.list [.integer 15, .text "40"]) = .ok b ∧
    (∀ v ∈ [Value.integer 15, .text "40"], articlesByViews "eq" v = .ok (bs v)) ∧
    ListsUnion Model.sampleRows Model.Blog.article [.integer 15, .text "40"] b bs ∧
    articlesByViews "notin" (.list [.integer 15, .text "40"]) = .ok e ∧
    (∀ v ∈ [Value.integer 15, .text "40"], articlesByViews "neq" v = .ok (es v)) ∧
    ListsCommon Model.sampleRows Model.Blog.article [.integer 15, .text "40"] e es ∧
    articlesByViews "notin" (.list []) = .ok rest ∧
    ∃ rs, ListsRoots Model.sampleRows Model.Blog.article rest rs ∧
      ∀ x, x ∈ rs ↔ x ∈ Model.sampleRows.rows "articles" ∧ Model.Blog.article.Owns x := by
  have hdecomposes := fetchAll_compound sample_wellFormed sampleRows_sound sample_identifiers
    (r := ofRoot Model.Blog.article) (d := {}) (f := "views") (by decide) (fun _ _ h => h)
    (by decide +kernel) (by decide +kernel) rfl rfl rfl (readsAfresh_of_uncached rfl) rfl
  have hnull : ∀ v ∈ [Value.integer 15, .text "40"], v ≠ .null := by simp
  have halike : Value.BoundAlike .integer [.integer 15, .text "40"] := by decide +kernel
  have hall : ∀ op, (∀ v ∈ [Value.integer 15, .text "40"], (readInOrder? Model.sample Model.sampleRows
      (ofRoot Model.Blog.article) (Descriptor.filteredBy ("views" ++ ":" ++ op) v {})).isSome = true) →
      ∀ v ∈ [Value.integer 15, .text "40"], ∃ a, articlesByViews op v = .ok a := fun op h v hv =>
    exists_articlesByViews op v (h v hv)
  have hequal := hall "eq" (by decide +kernel)
  have hunequal := hall "neq" (by decide +kernel)
  have hanswers : Nonempty Answer := ⟨.plain (.list [])⟩
  choose! bs hbs using hequal
  choose! es hes using hunequal
  obtain ⟨a, ha⟩ := exists_articlesByViews "between" (.list [.integer 15, .integer 40]) (by decide +kernel)
  obtain ⟨low, hlow⟩ := exists_articlesByViews "gte" (.integer 15) (by decide +kernel)
  obtain ⟨high, hhigh⟩ := exists_articlesByViews "lte" (.integer 40) (by decide +kernel)
  obtain ⟨b, hb⟩ := exists_articlesByViews "in" (.list [.integer 15, .text "40"]) (by decide +kernel)
  obtain ⟨e, he⟩ := exists_articlesByViews "notin" (.list [.integer 15, .text "40"]) (by decide +kernel)
  obtain ⟨rest, hrest⟩ := exists_articlesByViews "notin" (.list []) (by decide +kernel)
  exact ⟨a, low, high, b, bs, e, es, rest, ha, hlow, hhigh, (hdecomposes.range _ _ _ _ _ ha hlow hhigh).1,
    hb, hbs, hdecomposes.member _ _ _ hnull halike hb hbs, he, hes,
    hdecomposes.notMember _ _ _ (List.cons_ne_nil _ _) hnull halike he hes, hrest,
    hdecomposes.notEmpty _ hrest⟩

/-- In a list that starts with a floating-point number a text that writes NaN is bound to null, which no
row differs from; and the order of texts is not the one in which a column of numbers compares with them. -/
theorem not_compound_articlesByViews : ∃ a bs b,
    articlesByViews "notin" (.list [.float (.ofRatio false 3 2), .text "nan"]) = .ok a ∧
    (∀ v ∈ [Value.float (.ofRatio false 3 2), .text "nan"], v ≠ .null) ∧
    (∀ v ∈ [Value.float (.ofRatio false 3 2), .text "nan"], articlesByViews "neq" v = .ok (bs v)) ∧
    ¬ ListsCommon Model.sampleRows Model.Blog.article [.float (.ofRatio false 3 2), .text "nan"] a bs ∧
    "15" < "9" ∧ articlesByViews "between" (.list [.text "9", .text "15"]) = .ok b ∧
    ¬ ListsRoots Model.sampleRows Model.Blog.article b [] := by
  have hcounted : ∀ op v n, ((readInOrder? Model.sample Model.sampleRows (ofRoot Model.Blog.article)
      (Descriptor.filteredBy ("views" ++ ":" ++ op) v {})).bind listed?).map List.length = some n →
      ∃ items, articlesByViews op v = .ok (.plain (.list items)) ∧ items.length = n := fun op v n h =>
    fetchAll_listed Model.sample Model.sampleRows List.length rfl rfl h
  obtain ⟨none, hnone, hlength⟩ := hcounted "notin" (.list [.float (.ofRatio false 3 2), .text "nan"]) 0
    (by decide +kernel)
  obtain ⟨one, hone, hlength'⟩ := hcounted "between" (.list [.text "9", .text "15"]) 1 (by decide +kernel)
  have heach : ∀ v ∈ [Value.float (.ofRatio false 3 2), .text "nan"],
      ∃ items, articlesByViews "neq" v = .ok (.plain (.list items)) ∧ items.length = 3 := by
    have hcount : ∀ v ∈ [Value.float (.ofRatio false 3 2), .text "nan"], ((readInOrder? Model.sample
        Model.sampleRows (ofRoot Model.Blog.article)
        (Descriptor.filteredBy ("views" ++ ":" ++ "neq") v {})).bind listed?).map List.length = some 3 := by
      decide +kernel
    exact fun v hv => hcounted "neq" v 3 (hcount v hv)
  choose! items hitems hlengths using heach
  refine ⟨_, fun v => .plain (.list (items v)), _, hnone, by simp, hitems, ?_, by decide +kernel, hone, ?_⟩
  · rintro ⟨rs, ts, hrs, hts, hmem⟩
    have hempty : rs = [] := by
      obtain ⟨known, hknown, hstands⟩ := hrs.items
      cases hknown
      exact List.eq_nil_of_length_eq_zero (hstands.length_eq.trans hlength)
    have htips : Model.Blog.articleRow 1 "Python tips" 120 .null 1 ∈ rs := (hmem _).mpr fun v hv =>
      (hts v hv).mem_of_length rfl (by rw [hlengths v hv]; decide +kernel) (by decide +kernel)
    rw [hempty] at htips
    cases htips
  · rintro ⟨⟨known, hknown, hstands⟩, -, -⟩
    cases hknown
    rw [← hstands.length_eq] at hlength'
    cases hlength'

end Repository
end EntityQuery
