import EntityQuery.Execution.Evaluate
/-!
Equality of cells under the order of cells. Among cells that hold no NaN it is an equivalence, since
it is equality of the places that cells have in the order.
-/
namespace EntityQuery

namespace Cell

/-- A cell that a table can hold: any but a NaN. -/
def Proper : Cell → Prop
  | real x => x.isNaN = false
  | _ => True

instance : DecidablePred Proper := fun c => by
  cases c <;> unfold Proper <;> infer_instance

/-- The place of a cell in the order: its class, the rank and the units of a number, and the codes
of a text or of bytes. -/
def place : Cell → Nat × Int × Int × List Nat
  | null => (0, 0, 0, [])
  | integer n => (1, 0, n * Double.unitsPerOne, [])
  | real x => (1, x.rank, if x.rank = 0 then x.units else 0, [])
  | text s => (2, 0, 0, s.toList.map Char.toNat)
  | blob b => (3, 0, 0, b.map UInt8.toNat)

theorem compareLists_eq_eq {xs ys : List Nat} : compareLists xs ys = .eq ↔ xs = ys := by
  induction xs generalizing ys with
  | nil => cases ys <;> simp [compareLists]
  | cons x xs ih =>
    cases ys with
    | nil => simp [compareLists]
    | cons y ys => simp [compareLists, Ordering.then_eq_eq, ih]

attribute [local irreducible] Double.unitsPerOne

theorem unitsPerOne_pos : (0 : Int) < Double.unitsPerOne := by
  have hpow : ∀ k, 0 < Nat.pow 2 k := fun k => Nat.two_pow_pos k
  have hpos : 0 < Double.unitsPerOne := by
    unfold Double.unitsPerOne
    exact hpow 1074
  omega

theorem mul_unitsPerOne_inj {n m : Int} :
    n * Double.unitsPerOne = m * Double.unitsPerOne ↔ n = m :=
  Int.mul_eq_mul_right_iff (by have := unitsPerOne_pos; omega)

theorem compareInt?_eq_eq {x : Double} {n : Int} (hx : x.isNaN = false) :
    (x.compareInt? n).getD .eq = .eq ↔ (real x).place = (integer n).place := by
  unfold Double.compareInt? place
  rw [hx]
  by_cases hr : x.rank = 0
  · simp [hr]
  · simp [hr]

theorem compare?_eq_eq {x y : Double} (hx : x.isNaN = false) (hy : y.isNaN = false) :
    (x.compare? y).getD .eq = .eq ↔ (real x).place = (real y).place := by
  unfold Double.compare? place Double.compareFinite
  rw [hx, hy]
  by_cases hr : x.rank = y.rank
  · by_cases h0 : y.rank = 0
    · simp [hr, h0]
    · simp [hr, h0]
  · simp [hr]

/-- Cells are equal in the order exactly if they have the same place. -/
theorem order_eq_eq {a b : Cell} (ha : a.Proper) (hb : b.Proper) :
    a.order b = .eq ↔ a.place = b.place := by
  cases a <;> cases b
  case integer.integer n m =>
    have hunits : n * Double.unitsPerOne = m * Double.unitsPerOne ↔ n = m := mul_unitsPerOne_inj
    simp only [order, place, Int.compare_eq_eq, Prod.mk.injEq, true_and, and_true]
    exact hunits.symm
  case integer.real n x =>
    have h := compareInt?_eq_eq (n := n) hb
    simp only [order, Ordering.swap_eq_eq]
    rw [h]
    exact eq_comm
  case real.integer x n => exact compareInt?_eq_eq ha
  case real.real x y => exact compare?_eq_eq ha hb
  case text.text s t => simp [order, place, compareText, compareLists_eq_eq]
  case blob.blob s t => simp [order, place, compareLists_eq_eq]
  all_goals simp [order, place, classRank]

/-- What stands beside a NaN is equal to it from both sides, or from none. -/
theorem order_eq_comm_of_isNaN {x : Double} (hx : x.isNaN = true) (c : Cell) :
    (real x).order c = .eq ↔ c.order (real x) = .eq := by
  cases c <;> simp [order, classRank, Double.compareInt?, Double.compare?, hx]

/-- Whether cells are equal does not depend on their sides. -/
theorem order_eq_comm (a b : Cell) : a.order b = .eq ↔ b.order a = .eq := by
  have hnan : ∀ {c : Cell}, ¬ c.Proper → ∃ x : Double, c = real x ∧ x.isNaN = true := fun {c} hc => by
    cases c with
    | real x => exact ⟨x, rfl, by simpa [Proper] using hc⟩
    | _ => exact absurd trivial hc
  by_cases ha : a.Proper
  · by_cases hb : b.Proper
    · rw [order_eq_eq ha hb, order_eq_eq hb ha, eq_comm]
    · obtain ⟨x, rfl, hx⟩ := hnan hb
      exact (order_eq_comm_of_isNaN hx a).symm
  · obtain ⟨x, rfl, hx⟩ := hnan ha
    exact order_eq_comm_of_isNaN hx b

theorem compareCells_equal_comm (a b : Cell) : compareCells .equal a b = compareCells .equal b a := by
  have horder : Comparison.equal.holds (a.order b) = Comparison.equal.holds (b.order a) := by
    unfold Comparison.holds
    rw [Bool.eq_iff_iff, beq_iff_eq, beq_iff_eq, order_eq_comm]
  unfold compareCells
  rw [Bool.or_comm, horder]

/-- Two cells are equal in a comparison: neither is null, and they stand at one place. -/
def Same (a b : Cell) : Prop := compareCells .equal a b = some true

instance : DecidableRel Same := fun _ _ => inferInstanceAs (Decidable (_ = _))

theorem same_iff {a b : Cell} : a.Same b ↔ a ≠ .null ∧ b ≠ .null ∧ a.order b = .eq := by
  unfold Same compareCells
  by_cases ha : a = .null
  · simp [ha, isNull]
  · by_cases hb : b = .null
    · simp [hb, isNull]
    · simp [ha, hb, isNull, Comparison.holds]

theorem Same.symm {a b : Cell} (ha : a.Proper) (hb : b.Proper) (h : a.Same b) : b.Same a := by
  rw [same_iff] at h ⊢
  exact ⟨h.2.1, h.1, (order_eq_eq hb ha).mpr ((order_eq_eq ha hb).mp h.2.2).symm⟩

theorem Same.trans {a b c : Cell} (ha : a.Proper) (hb : b.Proper) (hc : c.Proper)
    (h : a.Same b) (h' : b.Same c) : a.Same c := by
  rw [same_iff] at h h' ⊢
  exact ⟨h.1, h'.2.1, (order_eq_eq ha hc).mpr
    (((order_eq_eq ha hb).mp h.2.2).trans ((order_eq_eq hb hc).mp h'.2.2))⟩

end Cell
end EntityQuery
