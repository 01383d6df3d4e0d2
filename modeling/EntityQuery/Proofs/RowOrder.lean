import EntityQuery.Proofs.RootFilter
import EntityQuery.Proofs.StoredRows
/-!
The order of rows. On cells that tables can hold, the order of cells is that of their places, so it is
total and transitive, and sorted rows are in order. An order that includes the whole key of the root
leaves no two roots at one place.
-/
namespace EntityQuery

namespace Cell

/-- Order of cells by their places. -/
def comparePlaces : Cell → Cell → Ordering :=
  compareLex (compareOn fun c => c.place.1) <| compareLex (compareOn fun c => c.place.2.1) <|
    compareLex (compareOn fun c => c.place.2.2.1) (compareOn fun c => c.place.2.2.2)

instance : Std.TransCmp comparePlaces := inferInstanceAs (Std.TransCmp (compareLex _ _))

theorem compareLists_eq_compare (xs ys : List Nat) : compareLists xs ys = compare xs ys := by
  induction xs generalizing ys with
  | nil => cases ys <;> rfl
  | cons x xs ih =>
    cases ys with
    | nil => rfl
    | cons y ys => rw [compareLists, ih, List.compare_cons_cons]

theorem compare_mul_unitsPerOne (n m : Int) :
    compare (n * Double.unitsPerOne) (m * Double.unitsPerOne) = compare n m := by
  have hpos := unitsPerOne_pos
  rcases Int.lt_trichotomy n m with h | rfl | h
  · rw [Int.compare_eq_lt.mpr h, Int.compare_eq_lt.mpr (Int.mul_lt_mul_of_pos_right h hpos)]
  · exact (Int.compare_eq_eq.mpr rfl).trans (Int.compare_eq_eq.mpr rfl).symm
  · rw [Int.compare_eq_gt.mpr h, Int.compare_eq_gt.mpr (Int.mul_lt_mul_of_pos_right h hpos)]

attribute [local irreducible] Double.unitsPerOne

theorem comparePlaces_eq (a b : Cell) : a.comparePlaces b =
    (compare a.place.1 b.place.1).then ((compare a.place.2.1 b.place.2.1).then
      ((compare a.place.2.2.1 b.place.2.2.1).then (compare a.place.2.2.2 b.place.2.2.2))) := rfl

theorem compareInt?_eq_comparePlaces {x : Double} {n : Int} (hx : x.isNaN = false) :
    (x.compareInt? n).getD .eq = (real x).comparePlaces (integer n) := by
  rw [comparePlaces_eq]
  unfold Double.compareInt? place
  rw [hx]
  by_cases hr : x.rank = 0
  · simp [hr]
  · have hne : compare x.rank 0 ≠ .eq := fun h => hr (Int.compare_eq_eq.mp h)
    simp only [hr, if_false, Bool.false_eq_true, Option.getD_some]
    cases hc : compare x.rank 0 <;> simp_all

theorem compare?_eq_comparePlaces {x y : Double} (hx : x.isNaN = false) (hy : y.isNaN = false) :
    (x.compare? y).getD .eq = (real x).comparePlaces (real y) := by
  rw [comparePlaces_eq]
  unfold Double.compare? place Double.compareFinite
  rw [hx, hy]
  by_cases hr : x.rank = y.rank
  · by_cases h0 : y.rank = 0
    · simp [hr, h0]
    · simp [hr, h0]
  · have hne : compare x.rank y.rank ≠ .eq := fun h => hr (Int.compare_eq_eq.mp h)
    simp only [hr, if_false, Bool.or_self, Bool.false_eq_true, Option.getD_some]
    cases hc : compare x.rank y.rank <;> simp_all

/-- Cells that tables can hold are in the order of their places. -/
theorem order_eq_comparePlaces {a b : Cell} (ha : a.Proper) (hb : b.Proper) :
    a.order b = a.comparePlaces b := by
  cases a <;> cases b
  case integer.integer n m => simp [order, comparePlaces_eq, place, compare_mul_unitsPerOne]
  case integer.real n x =>
    rw [order, compareInt?_eq_comparePlaces hb, ← Std.OrientedCmp.eq_swap]
  case real.integer x n => exact compareInt?_eq_comparePlaces ha
  case real.real x y => exact compare?_eq_comparePlaces ha hb
  case text.text s t =>
    simp [order, compareText, comparePlaces_eq, place, compareLists_eq_compare]
  case blob.blob s t => simp [order, comparePlaces_eq, place, compareLists_eq_compare]
  all_goals rfl

end Cell

/-- A row whose cells in the columns of an order can stand in tables. -/
def JoinedRow.ProperIn (order : List (ColumnRef × Direction)) (row : JoinedRow) : Prop :=
  ∀ c ∈ order, (row.get c.1).Proper

/-- Order of two rows by the places of their cells. -/
def placeRows : List (ColumnRef × Direction) → JoinedRow → JoinedRow → Ordering
  | [], _, _ => .eq
  | (c, d) :: rest, a, b =>
    (d.apply ((a.get c).comparePlaces (b.get c))).then (placeRows rest a b)

instance (c : ColumnRef) (d : Direction) : Std.TransCmp fun a b : JoinedRow =>
    d.apply ((a.get c).comparePlaces (b.get c)) where
  eq_swap := by
    intro a b
    have hswap : (a.get c).comparePlaces (b.get c) = ((b.get c).comparePlaces (a.get c)).swap :=
      Std.OrientedCmp.eq_swap
    rw [hswap]
    cases d <;> rfl
  isLE_trans := by
    intro a b c' hab hbc
    cases d with
    | ascending =>
      simp only [Direction.apply] at hab hbc ⊢
      exact Std.TransCmp.isLE_trans hab hbc
    | descending =>
      simp only [Direction.apply, Ordering.isLE_swap] at hab hbc ⊢
      exact Std.TransCmp.isGE_trans hab hbc

instance transCmp_placeRows (order : List (ColumnRef × Direction)) :
    Std.TransCmp (placeRows order) := by
  induction order with
  | nil => exact { eq_swap := rfl, isLE_trans := fun _ _ => rfl }
  | cons c rest ih =>
    exact inferInstanceAs (Std.TransCmp (compareLex
      (fun a b : JoinedRow => c.2.apply ((a.get c.1).comparePlaces (b.get c.1))) (placeRows rest)))

/-- Rows of proper cells are in the order of the places of their cells. -/
theorem compareRows_eq_placeRows {order : List (ColumnRef × Direction)} {a b : JoinedRow}
    (ha : a.ProperIn order) (hb : b.ProperIn order) :
    compareRows order a b = placeRows order a b := by
  induction order with
  | nil => rfl
  | cons c rest ih =>
    rw [compareRows, placeRows, Cell.order_eq_comparePlaces (ha c List.mem_cons_self)
      (hb c List.mem_cons_self), ih (fun c' h => ha c' (List.mem_cons_of_mem c h))
      fun c' h => hb c' (List.mem_cons_of_mem c h)]

theorem compareRows_antisymm {order : List (ColumnRef × Direction)} {a b : JoinedRow}
    (ha : a.ProperIn order) (hb : b.ProperIn order) (hab : compareRows order a b ≠ .gt)
    (hba : compareRows order b a ≠ .gt) : compareRows order a b = .eq := by
  rw [compareRows_eq_placeRows ha hb] at hab ⊢
  rw [compareRows_eq_placeRows hb ha] at hba
  exact Std.OrientedCmp.isLE_antisymm (Ordering.isLE_iff_ne_gt.mpr hab)
    (Ordering.isLE_iff_ne_gt.mpr hba)

/-- Rows at one place of an order agree in all of its columns. -/
theorem order_eq_of_compareRows {order : List (ColumnRef × Direction)} {a b : JoinedRow}
    (h : compareRows order a b = .eq) {c : ColumnRef × Direction} (hc : c ∈ order) :
    (a.get c.1).order (b.get c.1) = .eq := by
  induction order with
  | nil => cases hc
  | cons d rest ih =>
    obtain ⟨column, dir⟩ := d
    rw [compareRows, Ordering.then_eq_eq] at h
    rcases List.mem_cons.mp hc with rfl | hc
    · cases dir with
      | ascending => exact h.1
      | descending => exact Ordering.swap_eq_eq.mp h.1
    · exact ih h.2 hc

theorem pairwise_mergeSort_rows {order : List (ColumnRef × Direction)} {rows : List JoinedRow}
    (h : ∀ row ∈ rows, row.ProperIn order) :
    (rows.mergeSort fun a b => compareRows order a b != .gt).Pairwise fun a b =>
      compareRows order a b ≠ .gt := by
  -- only on proper cells is the comparison an order, so the sort is first shown to be that by places
  have hsame : rows.mergeSort (fun a b => compareRows order a b != .gt) =
      rows.mergeSort fun a b => (placeRows order a b).isLE := by
    have hmap := List.map_mergeSort (l := rows) (f := id) (r := fun a b => compareRows order a b != .gt)
      (s := fun a b => (placeRows order a b).isLE) fun a ha b hb => by
        simp only [id, compareRows_eq_placeRows (h a ha) (h b hb)]
        cases placeRows order a b <;> rfl
    simpa using hmap
  have hsorted : (rows.mergeSort fun a b => (placeRows order a b).isLE).Pairwise
      fun a b => (placeRows order a b).isLE = true :=
    List.pairwise_mergeSort (fun _ _ _ => Std.TransCmp.isLE_trans)
      (fun a b => by
        have hswap : placeRows order b a = (placeRows order a b).swap := Std.OrientedCmp.eq_swap
        rw [hswap]
        cases placeRows order a b <;> rfl) rows
  rw [hsame]
  refine hsorted.imp_of_mem fun {a b} ha hb hab => ?_
  rw [compareRows_eq_placeRows (h a (List.mem_mergeSort.mp ha)) (h b (List.mem_mergeSort.mp hb))]
  exact Ordering.isLE_iff_ne_gt.mp hab

namespace Plan

variable {s : Schema} {db : Database} {p : Plan} {js : List ResolvedJoin}
  {order : List (ColumnRef × Direction)}

theorem entity_of_occurrence? (hp : p.Layout s) (hroot : p.root ∈ s.entities) {k : Nat}
    {o : Occurrence} (ho : p.occurrence? k = some o) : o.entity ∈ s.entities := by
  cases k with
  | zero =>
    cases ho
    exact hroot
  | succ k =>
    obtain ⟨j, hj, rfl⟩ := Option.map_eq_some_iff.mp ho
    obtain ⟨_, _, _, _, _, _, _, htarget⟩ := hp.source k j hj
    exact List.mem_of_find?_eq_some htarget

theorem occurrence_of_orderColumn (hp : p.Layout s) {clause : OrderClause}
    {c : ColumnRef × Direction} (h : p.orderColumn clause = .ok c) :
    ∃ k o, p.occurrence? k = some o ∧ o.column? clause.field = some c.1 := by
  unfold orderColumn at h
  cases hfind : p.names.find? clause.aliasName with
  | none =>
    simp only [hfind, Option.getD_none] at h
    split at h
    · rename_i column hcolumn
      cases h
      exact ⟨0, _, rfl, hcolumn⟩
    · cases h
  | some o =>
    simp only [hfind, Option.getD_some] at h
    split at h
    · rename_i column hcolumn
      cases h
      obtain ⟨k, hk, -⟩ := hp.named _ _ hfind
      exact ⟨k, o, hk, hcolumn⟩
    · cases h

/-- The columns of an order hold cells of tables in each match. -/
theorem properIn_matched (hs : s.WellFormed) (hdb : db.Sound s) (hp : p.Layout s)
    (hroot : p.root ∈ s.entities) (hst : Staged s p 0 js) (horder : p.orderColumns = .ok order)
    {row : JoinedRow} (hrow : row ∈ p.matched db js) : row.ProperIn order := by
  intro c hc
  obtain ⟨clause, -, hclause⟩ := mem_of_mapM horder hc
  obtain ⟨k, o, ho, hcolumn⟩ := occurrence_of_orderColumn hp hclause
  have howner : c.1.owner = .entity k := occurrence?_position ho ▸ owner_column? hcolumn
  unfold JoinedRow.get
  rw [howner]
  cases hr : List.lookup (Owner.entity k) row with
  | none => exact trivial
  | some r =>
    exact hdb.proper hs (entity_of_occurrence? hp hroot ho)
      (stored_of_joined hst (mem_joined_of_matched hrow) ho hr) _

theorem pairwise_sorted (h : ∀ row ∈ p.matched db js, row.ProperIn order) :
    (p.sorted db js order).Pairwise fun a b => compareRows order a b ≠ .gt :=
  pairwise_mergeSort_rows h

/-- An order includes the whole key of the root. -/
def OrdersKey (p : Plan) (order : List (ColumnRef × Direction)) : Prop :=
  ∀ c ∈ p.root.keyColumns, ∃ dir, (⟨.entity 0, p.rootAlias, c⟩, dir) ∈ order

/-- The whole key of the root is among the order clauses of a plan. -/
def SortsKey (p : Plan) : Prop :=
  ∀ c ∈ p.root.keyColumns, ∃ clause ∈ p.orderBy,
    clause.aliasName = p.rootAlias ∧ clause.field = c.field

instance (p : Plan) : Decidable p.SortsKey :=
  inferInstanceAs (Decidable (∀ c ∈ p.root.keyColumns, _))

theorem column?_of_mem (hs : s.WellFormed) {e : Entity} (he : e ∈ s.entities) {c : Column}
    (hc : c ∈ e.columns) : e.column? c.field = some c := by
  obtain ⟨d, hd⟩ : ∃ d, e.column? c.field = some d := by
    rw [← Option.isSome_iff_exists, Entity.column?, List.find?_isSome]
    exact ⟨c, hc, by simp⟩
  have hfield : d.field = c.field := by simpa using List.find?_some hd
  rw [hd, List.inj_on_of_nodup_map (List.nodup_append.mp (hs.member_names e he)).1
    (List.mem_of_find?_eq_some hd) hc hfield]

theorem ordersKey_of_sortsKey (hs : s.WellFormed) (hp : p.Layout s) (hroot : p.root ∈ s.entities)
    (hkey : p.SortsKey) (horder : p.orderColumns = .ok order) : p.OrdersKey order := by
  intro c hc
  obtain ⟨clause, hclause, halias, hfield⟩ := hkey c hc
  obtain ⟨entry, hentry, h⟩ := exists_of_mem_mapM horder hclause
  have hcolumn : (rootOccurrence p.root).column? c.field = some ⟨.entity 0, p.rootAlias, c⟩ := by
    rw [column?_rootOccurrence, column?_of_mem hs hroot (List.mem_filter.mp hc).1]
    rfl
  simp only [orderColumn, halias, hp.root_name, Option.getD_some, hfield, hcolumn] at h
  cases h
  exact ⟨_, hentry⟩

/-- Two joined rows at one place of an order that includes the whole key have one root. -/
theorem root_of_compareRows (hs : s.WellFormed) (hdb : db.Sound s) (hroot : p.root ∈ s.entities)
    (hkey : p.OrdersKey order) {row other : JoinedRow} {a b : Row} (ha : a ∈ p.rootRows db)
    (hb : b ∈ p.rootRows db) (hrow : row.rowAt 0 = some a) (hother : other.rowAt 0 = some b)
    (h : compareRows order row other = .eq) : a = b := by
  refine hdb.row_unique hs hroot ha hb fun c hc => ?_
  obtain ⟨dir, hdir⟩ := hkey c hc
  have hget : ∀ {row : JoinedRow} {r : Row}, row.rowAt 0 = some r →
      row.get ⟨.entity 0, p.rootAlias, c⟩ = r.get c.name := fun hr => by
    unfold JoinedRow.get
    rw [show List.lookup (Owner.entity 0) _ = _ from hr]
    rfl
  have heq := order_eq_of_compareRows h hdir
  rw [hget hrow, hget hother] at heq
  exact Cell.same_iff.mpr ⟨hdb.key_present hs hroot ha hc, hdb.key_present hs hroot hb hc, heq⟩

end Plan
end EntityQuery
