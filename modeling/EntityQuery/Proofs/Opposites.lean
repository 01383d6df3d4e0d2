import EntityQuery.Proofs.Refusals
import EntityQuery.Proofs.Registrations
import EntityQuery.Proofs.RootFilter
import EntityQuery.Proofs.Writes
/-!
Opposite operators. Two operators that say the opposite of each other about values that are there give
predicates of which one is false where the other is true, and both are unknown exactly where the column is
null: a value that is there is bound to a cell that is not null. The one exception is a list that starts
with a floating-point number, where a text that writes NaN is bound to null.
-/
namespace EntityQuery

namespace Value

/-- A scalar other than none and NaN. -/
def Present : Value → Prop
  | boolean _ | integer _ | text _ | bytes _ | moment _ => True
  | float x => x.isNaN = false
  | _ => False

instance : DecidablePred Present := fun v => by
  cases v <;> unfold Present <;> infer_instance

/-- A text or a byte string that writes NaN. -/
def WritesNaN : Value → Prop
  | text s => ∃ x ∈ readFloatText? s, x.isNaN = true
  | bytes b => ∃ x ∈ (String.fromUTF8? (ByteArray.mk b.toArray)).bind readFloatText?, x.isNaN = true
  | _ => False

instance : DecidablePred WritesNaN := fun v => by
  cases v <;> unfold WritesNaN <;> infer_instance

end Value

/-! ### Cells of values that are there -/

/-- A value that is there is bound to no NaN as a number, unless it writes NaN. -/
theorem present_of_fitFloat {v w : Value} (hv : v.Present) (hnan : ¬ v.WritesNaN)
    (h : fitFloat v = some w) : w.Present := by
  have hread : ∀ {o : Option Double}, (∀ x ∈ o, x.isNaN = false) → o.map Value.float = some w →
      w.Present := by
    intro o ho hw
    obtain ⟨x, hx, rfl⟩ := Option.map_eq_some_iff.mp hw
    exact ho x hx
  cases v with
  | boolean b => exact hread (fun x hx => Double.isNaN_ofRatio? hx) h
  | integer n => exact hread (fun x hx => Double.isNaN_ofRatio? hx) h
  | float x =>
    cases h
    exact hv
  | text s => exact hread (fun x hx => Bool.eq_false_iff.mpr fun hyes => hnan ⟨x, hx, hyes⟩) h
  | bytes b =>
    refine hread (fun x hx => Bool.eq_false_iff.mpr fun hyes => hnan ⟨x, hx, hyes⟩) ?_
    rw [Option.map_bind]
    exact h
  | _ => cases h <;> exact hv

/-- What is bound for a value that is there is there itself. -/
theorem present_of_fit {t : ParameterType} {v w : Value} (hv : v.Present)
    (hnan : t = .float → ¬ v.WritesNaN) (h : t.fit v = some w) : w.Present := by
  cases t with
  | plain =>
    cases h
    exact hv
  | float => exact present_of_fitFloat hv (hnan rfl) h
  | boolean =>
    have hboolean : fitBoolean v = some w := h
    unfold fitBoolean at hboolean
    split at hboolean <;> grind [Value.Present]
  | moment =>
    have hmoment : fitMoment v = some w := h
    unfold fitMoment at hmoment
    split at hmoment <;> cases hmoment <;> trivial
  | bytes =>
    have hbytes : fitBytes v = some w := h
    unfold fitBytes at hbytes
    split at hbytes <;> cases hbytes <;> trivial

theorem ne_null_of_storedCell {v : Value} (hv : v.Present) {c : Cell} (h : storedCell v = .ok c) :
    c ≠ .null := by
  cases v with
  | float x =>
    have hx : x.isNaN = false := hv
    simp only [storedCell, hx] at h
    cases h
    simp
  | integer n =>
    unfold storedCell at h
    dsimp only at h
    split at h <;> cases h
    simp
  | boolean _ | text _ | bytes _ | moment _ =>
    cases h
    simp
  | _ => cases hv

/-- A value that is there and can be bound is bound to a cell that is not null. -/
theorem boundCell_ne_null {t : ParameterType} {v : Value} (hv : v.Present)
    (hnan : t = .float → ¬ v.WritesNaN) (hbinds : (⟨t, v⟩ : Parameter).Binds) :
    boundCell t v ≠ .null := by
  obtain ⟨c, hc⟩ := hbinds
  unfold Parameter.cell at hc
  unfold boundCell
  dsimp only at hc
  cases hfit : t.fit v with
  | none =>
    rw [hfit] at hc
    cases hc
  | some w =>
    simp only [hfit] at hc
    simp only [Option.map_some, hc]
    exact ne_null_of_storedCell (present_of_fit hv hnan hfit) hc

theorem ne_null_of_numberOfText? {s : String} {c : Cell} (h : numberOfText? s = some c) :
    c ≠ .null := by
  obtain ⟨d, -, rfl⟩ := Option.map_eq_some_iff.mp h
  dsimp only
  split <;> split <;> simp

theorem alignedWith_ne_null {t : ColumnType} {c : Cell} (h : c ≠ .null) : alignedWith t c ≠ .null := by
  unfold alignedWith
  split
  · cases c <;> simp_all [Cell.asText]
  · cases c with
    | text s =>
      change (numberOfText? s).getD (.text s) ≠ .null
      cases hn : numberOfText? s with
      | none => exact h
      | some n => exact ne_null_of_numberOfText? hn
    | _ => exact h

/-- The type of a single value is decided by the value, so a text is never read as a number. -/
theorem singleCell_ne_null {c : ColumnRef} {v : Value} (hv : v.Present)
    (hbinds : (Parameter.single c v).Binds) : singleCell c.column.type v ≠ .null := by
  refine boundCell_ne_null hv (fun htype => ?_) hbinds
  cases v with
  | float x => exact id
  | boolean _ | integer _ | text _ | bytes _ | moment _ => cases htype
  | _ => cases hv

/-- A list whose first value is a floating-point number holds no text that writes NaN. -/
def Value.ReadsNumbers (vs : List Value) : Prop :=
  ∀ x, vs.head? = some (.float x) → ∀ v ∈ vs, ¬ v.WritesNaN

theorem severalCells_ne_null {c : ColumnRef} {vs : List Value} (hvs : ∀ v ∈ vs, v.Present)
    (hnumbers : Value.ReadsNumbers vs) (hbinds : ∀ p ∈ Parameter.several c vs, p.Binds) :
    ∀ b ∈ severalCells c.column.type vs, b ≠ .null := by
  intro b hb
  obtain ⟨v, hv, rfl⟩ := List.mem_map.mp hb
  refine boundCell_ne_null (hvs v hv) (fun htype => ?_) (hbinds _ (List.mem_map_of_mem hv))
  cases vs with
  | nil => cases hv
  | cons w vs =>
    have hw := hvs w List.mem_cons_self
    cases w with
    | float x => exact hnumbers x rfl v hv
    | boolean _ | integer _ | text _ | bytes _ | moment _ => cases htype
    | _ => cases hw

/-! ### Comparisons, patterns and lists -/

theorem compareCells_opposite (op : Comparison) (a b : Cell) :
    compareCells op.opposite a b = (compareCells op a b).not := by
  unfold compareCells
  split
  · rfl
  · exact congrArg some (Comparison.holds_opposite op _)

theorem compareCells_eq_none {op : Comparison} {a b : Cell} (hb : b ≠ .null) :
    compareCells op a b = none ↔ a = .null := by
  unfold compareCells Cell.isNull
  simp [hb]

theorem matchedText?_eq_none {c : Cell} : c.matchedText? = none ↔ c = .null := by
  cases c <;> simp [Cell.matchedText?]

theorem matchCells_eq_none {style : PatternStyle} {a pattern : Cell} (hpattern : pattern ≠ .null) :
    matchCells style a pattern = none ↔ a = .null := by
  rw [← matchedText?_eq_none]
  obtain ⟨p, hp⟩ := Option.ne_none_iff_exists'.mp (mt matchedText?_eq_none.mp hpattern)
  unfold matchCells
  rw [hp]
  cases a.matchedText? with
  | none => simp
  | some s => cases style <;> simp

theorem memberOf_null {bs : List Cell} (h : bs ≠ []) : memberOf .null bs = none := by
  induction bs with
  | nil => exact absurd rfl h
  | cons b bs ih =>
    cases bs with
    | nil => rfl
    | cons c bs =>
      rw [memberOf, ih (List.cons_ne_nil c bs)]
      rfl

theorem Truth.or_ne_none {a b : Truth} (ha : a ≠ none) (hb : b ≠ none) : Truth.or a b ≠ none := by
  rcases a with _ | _ | _ <;> rcases b with _ | _ | _ <;> simp_all [Truth.or]

theorem memberOf_ne_none {a : Cell} (ha : a ≠ .null) {bs : List Cell} (hbs : ∀ b ∈ bs, b ≠ .null) :
    memberOf a bs ≠ none := by
  induction bs with
  | nil => simp [memberOf]
  | cons b bs ih =>
    have hb : compareCells .equal a b ≠ none :=
      mt (compareCells_eq_none (hbs b List.mem_cons_self)).mp ha
    exact Truth.or_ne_none hb (ih fun c hc => hbs c (List.mem_cons_of_mem b hc))

theorem memberOf_eq_none {a : Cell} {bs : List Cell} (hne : bs ≠ []) (hbs : ∀ b ∈ bs, b ≠ .null) :
    memberOf a bs = none ↔ a = .null := by
  constructor
  · exact not_imp_not.mp fun ha => memberOf_ne_none ha hbs
  · rintro rfl
    exact memberOf_null hne

namespace Predicate

/-- Of two predicates on a column one is false where the other is true, and both are unknown where the
column is null and nowhere else. -/
structure Opposite (c : ColumnRef) (p q : Predicate) : Prop where
  negated : ∀ row, q.eval row = (p.eval row).not
  unknown : ∀ row : JoinedRow, p.eval row = none ↔ row.get c = .null

variable {c : ColumnRef} {p q : Predicate}

theorem Opposite.symm (h : Opposite c p q) : Opposite c q p where
  negated row := by rw [h.negated, Truth.not_not]
  unknown row := by
    rw [h.negated, ← h.unknown]
    exact Option.map_eq_none_iff

theorem Opposite.not_both (h : Opposite c p q) {row : JoinedRow} (hp : p.holds row = true) :
    q.holds row = false := by
  have heval : p.eval row = some true := by simpa [holds] using hp
  simp [holds, h.negated, heval, Truth.not]

theorem Opposite.either (h : Opposite c p q) {row : JoinedRow} :
    p.holds row = true ∨ q.holds row = true ↔ row.get c ≠ .null := by
  rw [Ne, ← h.unknown]
  unfold holds
  rw [h.negated]
  rcases p.eval row with _ | _ | _ <;> simp [Truth.not]

theorem opposite_compare {v : Value} (hv : v.Present) (op : Comparison)
    (hbinds : (compare op c (.value v)).Binds) :
    Opposite c (compare op c (.value v)) (compare op.opposite c (.value v)) where
  negated _ := compareCells_opposite _ _ _
  unknown _ :=
    compareCells_eq_none (alignedWith_ne_null (singleCell_ne_null hv (binds_compare_value.mp hbinds)))

theorem opposite_truth (b : Bool) : Opposite c (truth true c b) (truth false c b) where
  negated _ := compareCells_opposite .equal _ _
  unknown _ := compareCells_eq_none (alignedWith_ne_null (by simp))

theorem opposite_like {v : Value} (hv : v.Present) (hbinds : (like false .whole c (.value v)).Binds) :
    Opposite c (like false .whole c (.value v)) (like true .whole c (.value v)) where
  negated _ := rfl
  unknown row := by
    have hmatch : matchCells .whole (row.get c) (singleCell c.column.type v) = none ↔
        row.get c = .null :=
      matchCells_eq_none (singleCell_ne_null hv (binds_like_value.mp hbinds))
    exact hmatch

theorem opposite_member {vs : List Value} (hne : vs ≠ []) (hvs : ∀ v ∈ vs, v.Present)
    (hnumbers : Value.ReadsNumbers vs) (hbinds : (member false c vs).Binds) :
    Opposite c (member false c vs) (member true c vs) where
  negated _ := rfl
  unknown row := by
    refine memberOf_eq_none (by simpa [severalCells] using hne) fun b hb => ?_
    obtain ⟨cell, hcell, rfl⟩ := List.mem_map.mp hb
    exact alignedWith_ne_null (severalCells_ne_null hvs hnumbers hbinds cell hcell)

end Predicate

/-! ### Operators and their names -/

/-- Two operators that say the opposite of each other about a value. -/
inductive Opposed : String → String → Value → Prop
  | equal {v : Value} : v.Present → Opposed "eq" "neq" v
  | greater {v : Value} : v.Present → Opposed "gt" "lte" v
  | less {v : Value} : v.Present → Opposed "lt" "gte" v
  | like {v : Value} : v.Present → Opposed "like" "notlike" v
  | negatedLike {v : Value} : v.Present → Opposed "like" "nlike" v
  | member {w : Value} {vs : List Value} : w.items? = some vs → vs ≠ [] → (∀ v ∈ vs, v.Present) →
      Value.ReadsNumbers vs → Opposed "in" "notin" w

theorem Opposed.colonless {name name' : String} {v : Value} (h : Opposed name name' v) :
    ':' ∉ name.toList ∧ ':' ∉ name'.toList := by
  cases h <;> decide

/-- An operator that tests with a value whether a column is null, or whether it is not. -/
inductive TestsNull : String → Value → Bool → Prop
  | isNull (v : Value) : TestsNull "isnull" v true
  | isNotNull (v : Value) : TestsNull "isnotnull" v false
  | check (v : Value) : TestsNull "null" v (Operator.readsTrue v)

theorem TestsNull.colonless {name : String} {v : Value} {isNull : Bool} (h : TestsNull name v isNull) :
    ':' ∉ name.toList := by
  cases h <;> decide

/-- A table has the operators that every query can use. -/
def OperatorTable.HasBuiltIn (operators : OperatorTable Operator) : Prop :=
  ∀ name o, OrderedMap.find? builtIn name = some o → OrderedMap.find? operators name = some o

theorem OperatorTable.resolve_of_hasBuiltIn {operators : OperatorTable Operator}
    (h : operators.HasBuiltIn) {name : String} {o : Operator} (ho : builtIn.resolve name = .ok o) :
    operators.resolve name = .ok o := by
  unfold resolve at ho ⊢
  split at ho
  · rename_i hname
    rwa [if_pos hname]
  · rename_i hname
    rw [if_neg hname]
    split at ho
    · rename_i hnull
      rwa [if_pos hnull]
    · rename_i hnull
      rw [if_neg hnull]
      unfold get at ho ⊢
      cases hfind : OrderedMap.find? builtIn (Text.lower name) with
      | none =>
        rw [hfind] at ho
        cases ho
      | some o' =>
        rw [hfind] at ho
        rw [h _ _ hfind]
        exact ho

/-- No registration takes a built-in operator away. -/
theorem OperatorTable.hasBuiltIn_after (requests : List (Request Operator)) :
    (builtIn.after requests).HasBuiltIn := fun _ _ ho =>
  (builtInAs_id ▸ holds_builtInAs id).find?_after ho requests

/-- A comparison and its opposite: truth values are written into the predicate, all else is bound. -/
theorem opposite_of_comparison {op : Comparison} {c : ColumnRef} {v : Value} {p q : Predicate}
    (hv : v.Present) (hp : Operator.comparison op c v = .ok p)
    (hq : Operator.comparison op.opposite c v = .ok q) (hbinds : p.Binds) : p.Opposite c q := by
  cases v with
  | boolean b =>
    cases op <;> cases hp <;> cases hq
    · exact Predicate.opposite_truth b
    · exact (Predicate.opposite_truth b).symm
  | integer _ | float _ | text _ | bytes _ | moment _ =>
    cases hp
    cases hq
    exact Predicate.opposite_compare hv op hbinds
  | _ => cases hv

theorem OperatorTable.eq_of_resolve {operators : OperatorTable Operator} (h : operators.HasBuiltIn)
    {name : String} {o b : Operator} (ho : operators.resolve name = .ok o)
    (hb : builtIn.resolve name = .ok b) : o = b :=
  Except.ok.inj (ho.symm.trans (resolve_of_hasBuiltIn h hb))

theorem eq_nullTest_of_testsNull {operators : OperatorTable Operator}
    (hoperators : operators.HasBuiltIn) {name : String} {v : Value} {isNull : Bool}
    (h : TestsNull name v isNull) {o : Operator} (ho : operators.resolve name = .ok o) {c : ColumnRef}
    {p : Predicate} (hp : o.apply c v = .ok p) : p = .nullTest isNull c := by
  cases h with
  | isNull =>
    obtain rfl := OperatorTable.eq_of_resolve hoperators ho (b := .isNull) rfl
    exact (Except.ok.inj hp).symm
  | isNotNull =>
    obtain rfl := OperatorTable.eq_of_resolve hoperators ho (b := .isNotNull) rfl
    exact (Except.ok.inj hp).symm
  | check =>
    obtain rfl := OperatorTable.eq_of_resolve hoperators ho (b := .nullCheck) rfl
    exact (Except.ok.inj hp).symm

/-- The predicates of two operators that say the opposite of each other are opposite. -/
theorem opposite_of_opposed {operators : OperatorTable Operator} (hoperators : operators.HasBuiltIn)
    {name name' : String} {v : Value} (h : Opposed name name' v) {o o' : Operator}
    (ho : operators.resolve name = .ok o) (ho' : operators.resolve name' = .ok o') {c : ColumnRef}
    {p q : Predicate} (hp : o.apply c v = .ok p) (hq : o'.apply c v = .ok q) (hbinds : p.Binds) :
    p.Opposite c q := by
  have hnamed : ∀ {name : String} {o b : Operator}, operators.resolve name = .ok o →
      OperatorTable.builtIn.resolve name = .ok b → o = b :=
    OperatorTable.eq_of_resolve hoperators
  cases h with
  | equal hv =>
    obtain rfl := hnamed ho (b := .equal) rfl
    obtain rfl := hnamed ho' (b := .notEqual) rfl
    exact opposite_of_comparison hv hp hq hbinds
  | greater hv =>
    obtain rfl := hnamed ho (b := .greater) rfl
    obtain rfl := hnamed ho' (b := .lessOrEqual) rfl
    exact opposite_of_comparison hv hp hq hbinds
  | less hv =>
    obtain rfl := hnamed ho (b := .less) rfl
    obtain rfl := hnamed ho' (b := .greaterOrEqual) rfl
    exact opposite_of_comparison hv hp hq hbinds
  | like hv =>
    obtain rfl := hnamed ho (b := .like) rfl
    obtain rfl := hnamed ho' (b := .notLike) rfl
    obtain rfl := Operator.pattern_eq_ok hp
    obtain rfl := Operator.pattern_eq_ok hq
    exact Predicate.opposite_like hv hbinds
  | negatedLike hv =>
    obtain rfl := hnamed ho (b := .like) rfl
    obtain rfl := hnamed ho' (b := .negatedLike) rfl
    obtain rfl := Operator.pattern_eq_ok hp
    obtain ⟨q', hq', rfl⟩ := ok_of_map hq
    obtain rfl := Operator.pattern_eq_ok hq'
    exact Predicate.opposite_like hv hbinds
  | member hw hne hvs hnumbers =>
    obtain rfl := hnamed ho (b := .isIn) rfl
    obtain rfl := hnamed ho' (b := .isNotIn) rfl
    cases hp
    cases hq
    rw [Value.asItems, hw] at hbinds ⊢
    exact Predicate.opposite_member hne hvs hnumbers hbinds

/-- The negation of a pattern is the negated pattern, also where there is no predicate. -/
theorem apply_negatedLike (c : ColumnRef) (v : Value) :
    Operator.negatedLike.apply c v = Operator.notLike.apply c v := by
  cases v <;> rfl

end EntityQuery
