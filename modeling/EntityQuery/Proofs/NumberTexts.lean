import EntityQuery.Proofs.CompoundFilters
import EntityQuery.Proofs.ReplacedFilters
/-!
Numbers as texts. The decimal text of an integer is read as this integer beside a column of integers, so a
filter by texts runs as the filter by the integers.
-/
namespace EntityQuery

/-! ### Decimal texts -/

namespace Number

theorem digitsValue_toDigits (n : ℕ) : digitsValue (Nat.toDigits 10 n) = n :=
  Nat.ofDigitChars_toDigits (by decide) (by decide)

theorem isDigit_of_mem_toDigits {n : ℕ} {c : Char} (hc : c ∈ Nat.toDigits 10 n) : c.isDigit = true :=
  Nat.isDigit_of_mem_toDigits (by decide) (by decide) hc

theorem readSign_toDigits (n : ℕ) : readSign (Nat.toDigits 10 n) = (false, Nat.toDigits 10 n) := by
  have hdigits := @isDigit_of_mem_toDigits n
  generalize Nat.toDigits 10 n = cs at hdigits ⊢
  unfold readSign
  split
  · exact absurd (hdigits List.mem_cons_self) (by decide)
  · exact absurd (hdigits List.mem_cons_self) (by decide)
  · rfl

theorem spanDigits_toDigits (n : ℕ) : spanDigits (Nat.toDigits 10 n) = (Nat.toDigits 10 n, []) := by
  have hdigits : ∀ c ∈ Nat.toDigits 10 n, c.isDigit = true := fun _ => isDigit_of_mem_toDigits
  rw [spanDigits, List.takeWhile_eq_self_iff.mpr hdigits, List.dropWhile_eq_nil_iff.mpr hdigits]

/-- The characters of the decimal text of an integer. -/
def integerChars (n : ℤ) : List Char := (if n < 0 then ['-'] else []) ++ Nat.toDigits 10 n.natAbs

theorem toList_toString (n : ℤ) : (toString n).toList = integerChars n := by
  cases n with
  | ofNat n =>
    change (toString n).toList = _
    rw [Nat.toString_eq_repr, Nat.toList_repr]
    rfl
  | negSucc n =>
    change ("-" ++ toString (n + 1)).toList = _
    rw [String.toList_append, Nat.toString_eq_repr, Nat.toList_repr, integerChars,
      if_pos (Int.negSucc_lt_zero n)]
    rfl

/-- The decimal text of an integer is read as a sign and digits. -/
theorem read?_integerChars (n : ℤ) :
    DecimalText.read? (integerChars n) = some ⟨decide (n < 0), n.natAbs, 0, true⟩ := by
  have hsign : readSign (integerChars n) = (decide (n < 0), Nat.toDigits 10 n.natAbs) := by
    unfold integerChars
    split
    · simp [readSign, *]
    · simp [readSign_toDigits, *]
  have hsome : (Nat.toDigits 10 n.natAbs).isEmpty = false := by
    rw [List.isEmpty_eq_false_iff]
    exact Nat.toDigits_ne_nil
  unfold DecimalText.read?
  simp only [hsign, spanDigits_toDigits, hsome, Bool.false_and, List.append_nil, digitsValue_toDigits]
  rfl

/-- A decimal text has no blanks around it. -/
theorem trim_integerChars (n : ℤ) : Text.trimBy Text.isAsciiBlank (integerChars n) = integerChars n := by
  have hdigit : ∀ c : Char, c.isDigit = true → Text.isAsciiBlank c = false := by
    intro c hc
    simp only [Char.isDigit, ge_iff_le, UInt32.le_iff_toNat_le, Bool.and_eq_true,
      decide_eq_true_eq] at hc
    change 48 ≤ c.toNat ∧ c.toNat ≤ 57 at hc
    simp only [Text.isAsciiBlank, decide_eq_false_iff_not]
    omega
  have hchars : ∀ c ∈ integerChars n, Text.isAsciiBlank c = false := by
    intro c hc
    rcases List.mem_append.mp hc with hminus | hdigits
    · split at hminus
      · rw [List.mem_singleton.mp hminus]
        decide
      · cases hminus
    · exact hdigit c (isDigit_of_mem_toDigits hdigits)
  have hdrop : ∀ cs : List Char, (∀ c ∈ cs, Text.isAsciiBlank c = false) →
      cs.dropWhile Text.isAsciiBlank = cs := by
    intro cs hcs
    cases cs with
    | nil => rfl
    | cons c cs => exact List.dropWhile_cons_of_neg (by simp [hcs c List.mem_cons_self])
  unfold Text.trimBy
  rw [hdrop _ hchars, hdrop _ fun c hc => hchars c (List.mem_reverse.mp hc), List.reverse_reverse]

end Number

/-- The decimal text of an integer writes this integer. -/
theorem numberOfText?_toString {n : ℤ} (hn : inCellRange n = true) :
    numberOfText? (toString n) = some (.integer n) := by
  unfold numberOfText?
  rw [Number.toList_toString, Number.trim_integerChars, Number.read?_integerChars]
  have hsigned : (if decide (n < 0) = true then -(n.natAbs : ℤ) else n.natAbs) = n := by
    by_cases h : n < 0
    · rw [if_pos (decide_eq_true h)]
      omega
    · rw [if_neg (by simpa using h)]
      omega
  simp only [Option.map_some, hsigned, hn, Bool.and_self, if_true]

/-! ### Cells -/

/-- A column of integers compares with an integer for the integer itself and for its text. -/
theorem comparedCell_integer {n : ℤ} (hn : inCellRange n = true) :
    comparedCell .integer (.integer n) = .integer n ∧
      comparedCell .integer (.text (toString n)) = .integer n := by
  have hstored : storedCell (.integer n) = .ok (.integer n) := if_pos hn
  constructor
  · change alignedWith .integer (boundCell .plain (.integer n)) = _
    unfold boundCell
    simp only [ParameterType.fit, Option.map_some, hstored]
    rfl
  · change (numberOfText? (toString n)).getD (.text (toString n)) = _
    rw [numberOfText?_toString hn]
    rfl

/-! ### Predicates -/

/-- The values that stand for integers in a query string: their decimal texts. -/
def numberTexts (ns : List ℤ) : List Value := ns.map fun n => .text (toString n)

namespace Parameter

variable {c : ColumnRef} {ns : List ℤ}

theorem binds_integer {n : ℤ} (hn : inCellRange n = true) : (single c (.integer n)).Binds :=
  ⟨.integer n, if_pos hn⟩

/-- A list of integers decides the type that each of them decides alone. -/
theorem ofSeveral_integers (t : ColumnType) {n : ℤ} (hn : n ∈ ns) :
    ParameterType.ofSingle t (.integer n) = .ofSeveral t (ns.map .integer) := by
  cases ns with
  | nil => cases hn
  | cons m ns => rfl

theorem ofSeveral_numberTexts (t : ColumnType) {n : ℤ} (hn : n ∈ ns) :
    ParameterType.ofSingle t (.text (toString n)) = .ofSeveral t (numberTexts ns) := by
  cases ns with
  | nil => cases hn
  | cons m ns => rfl

theorem binds_integers (hns : ∀ n ∈ ns, inCellRange n = true) :
    ∀ x ∈ several c (ns.map .integer), x.Binds := by
  intro x hx
  obtain ⟨v, hv, rfl⟩ := List.mem_map.mp hx
  obtain ⟨n, hn, rfl⟩ := List.mem_map.mp hv
  rw [← ofSeveral_integers c.column.type hn]
  exact binds_integer (c := c) (hns n hn)

end Parameter

namespace Predicate

variable {c : ColumnRef} (hc : c.column.type = .integer)

include hc

/-- The cells that a column of integers compares with for a list of integers or of their texts. -/
theorem map_listedCell {ns : List ℤ} (hns : ∀ n ∈ ns, inCellRange n = true) :
    (ns.map Value.integer).map (listedCell c.column.type (ns.map .integer)) = ns.map Cell.integer ∧
      (numberTexts ns).map (listedCell c.column.type (numberTexts ns)) = ns.map Cell.integer := by
  rw [hc]
  constructor
  · rw [List.map_map]
    refine List.map_congr_left fun n hn => ?_
    rw [Function.comp_apply, listedCell_of_sameType (Parameter.ofSeveral_integers _ hn),
      (comparedCell_integer (hns n hn)).1]
  · rw [numberTexts, List.map_map]
    refine List.map_congr_left fun n hn => ?_
    exact (listedCell_of_sameType (Parameter.ofSeveral_numberTexts _ hn)).trans
      (comparedCell_integer (hns n hn)).2

theorem eval_compare_integer (op : Comparison) {n : ℤ} (hn : inCellRange n = true) (row : JoinedRow) :
    (compare op c (.value (.integer n))).eval row = compareCells op (row.get c) (.integer n) := by
  change compareCells op (row.get c) (comparedCell c.column.type (.integer n)) = _
  rw [hc, (comparedCell_integer hn).1]

theorem eval_between_integers {low high : ℤ} (hlow : inCellRange low = true)
    (hhigh : inCellRange high = true) (row : JoinedRow) :
    (between c (.integer low) (.integer high)).eval row =
      Truth.and (compareCells .greaterOrEqual (row.get c) (.integer low))
        (compareCells .lessOrEqual (row.get c) (.integer high)) := by
  change Truth.and (compareCells _ _ (comparedCell c.column.type (.integer low)))
    (compareCells _ _ (comparedCell c.column.type (.integer high))) = _
  rw [hc, (comparedCell_integer hlow).1, (comparedCell_integer hhigh).1]

theorem eval_member_integers (negated : Bool) {ns : List ℤ} (hns : ∀ n ∈ ns, inCellRange n = true)
    (row : JoinedRow) : (member negated c (ns.map .integer)).eval row =
      negatedIf negated (memberOf (row.get c) (ns.map Cell.integer)) := by
  rw [eval, memberOf_listed, (map_listedCell hc hns).1]

/-- A comparison with an integer runs as that with its text. -/
theorem runsAs_compare (op : Comparison) {n : ℤ} (hn : inCellRange n = true) :
    (compare op c (.value (.integer n))).RunsAs (compare op c (.value (.text (toString n)))) := by
  refine ⟨fun row => ?_, rfl, .inr ⟨?_, ?_⟩⟩
  · change (_ == some true) = (compareCells op (row.get c) (comparedCell c.column.type _) == some true)
    rw [eval_compare_integer hc op hn, hc, (comparedCell_integer hn).2]
  · exact binds_compare_value.mpr (Parameter.binds_integer hn)
  · exact binds_compare_value.mpr (Parameter.binds_text c _)

theorem runsAs_between {low high : ℤ} (hlow : inCellRange low = true) (hhigh : inCellRange high = true) :
    (between c (.integer low) (.integer high)).RunsAs
      (between c (.text (toString low)) (.text (toString high))) := by
  refine ⟨fun row => ?_, rfl, .inr ⟨?_, ?_⟩⟩
  · change (_ == some true) = (Truth.and (compareCells _ _ (comparedCell c.column.type _))
      (compareCells _ _ (comparedCell c.column.type _)) == some true)
    rw [eval_between_integers hc hlow hhigh, hc, (comparedCell_integer hlow).2,
      (comparedCell_integer hhigh).2]
  · simp [Binds, parameters, Parameter.binds_integer hlow, Parameter.binds_integer hhigh]
  · simp [Binds, parameters, Parameter.binds_text]

theorem runsAs_member (negated : Bool) {ns : List ℤ} (hns : ∀ n ∈ ns, inCellRange n = true) :
    (member negated c (ns.map .integer)).RunsAs (member negated c (numberTexts ns)) := by
  refine ⟨fun row => ?_, rfl, .inr ⟨Parameter.binds_integers hns, ?_⟩⟩
  · rw [holds, holds, eval_member_integers hc negated hns, eval, memberOf_listed,
      (map_listedCell hc hns).2]
  · have htexts : numberTexts ns = (ns.map toString).map .text := by
      rw [numberTexts, List.map_map]
      rfl
    rw [htexts]
    exact Parameter.binds_several c _

end Predicate
end EntityQuery
