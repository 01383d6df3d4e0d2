import EntityQuery.Execution.Evaluate
import EntityQuery.Proofs.Layout
import EntityQuery.Proofs.Result
import EntityQuery.Plan.Statement
/-!
Filters on the root. The truth of a predicate depends on the columns that it reads only, so where
all parameters name columns of the root, the root alone decides which joined rows match.
-/
namespace EntityQuery

theorem Operand.sides_congr {row other : JoinedRow} {l : ColumnRef} {r : Operand}
    (h : ∀ c ∈ l :: Predicate.Operand.columns r, row.get c = other.get c) :
    r.sides l row = r.sides l other := by
  cases r with
  | value v => simp [sides, h l (by simp)]
  | column d => simp [sides, h l (by simp), h d (by simp [Predicate.Operand.columns])]

theorem Operand.pattern_congr {row other : JoinedRow} {l : ColumnRef} {r : Operand}
    (h : ∀ c ∈ Predicate.Operand.columns r, row.get c = other.get c) :
    r.pattern l row = r.pattern l other := by
  cases r with
  | value v => rfl
  | column d => exact h d (by simp [Predicate.Operand.columns])

namespace Predicate

mutual

/-- Rows that agree in the columns of a predicate give it the same truth. -/
theorem eval_congr {row other : JoinedRow} (p : Predicate)
    (h : ∀ c ∈ p.columns, row.get c = other.get c) : p.eval row = p.eval other := by
  cases p with
  | constant b => rfl
  | compare op l r => simp only [eval, Operand.sides_congr h]
  | truth e l b => simp only [eval, h l (by simp [columns])]
  | nullTest n l => simp only [eval, h l (by simp [columns])]
  | like n style l r =>
    have hr : ∀ c ∈ Operand.columns r, row.get c = other.get c := fun c hc =>
      h c (List.mem_cons_of_mem l hc)
    simp only [eval, h l (by simp [columns]), Operand.pattern_congr hr]
  | member n l vs => simp only [eval, h l (by simp [columns])]
  | between l low high => simp only [eval, h l (by simp [columns])]
  | all ps =>
    simp only [eval]
    exact evalAll_congr ps h
  | any ps =>
    simp only [eval]
    exact evalAny_congr ps h
  | negation p =>
    simp only [eval]
    rw [eval_congr p h]

theorem evalAll_congr {row other : JoinedRow} (ps : List Predicate)
    (h : ∀ c ∈ columnsOf ps, row.get c = other.get c) : evalAll row ps = evalAll other ps := by
  cases ps with
  | nil => rfl
  | cons p ps =>
    simp only [evalAll]
    rw [eval_congr p fun c hc => h c (by simp [columnsOf, hc]),
      evalAll_congr ps fun c hc => h c (by simp [columnsOf, hc])]

theorem evalAny_congr {row other : JoinedRow} (ps : List Predicate)
    (h : ∀ c ∈ columnsOf ps, row.get c = other.get c) : evalAny row ps = evalAny other ps := by
  cases ps with
  | nil => rfl
  | cons p ps =>
    simp only [evalAny]
    rw [eval_congr p fun c hc => h c (by simp [columnsOf, hc]),
      evalAny_congr ps fun c hc => h c (by simp [columnsOf, hc])]

end

end Predicate

theorem Operator.pattern_eq_ok {negated : Bool} {style : PatternStyle} {c : ColumnRef} {v : Value}
    {p : Predicate} (h : pattern negated style c v = .ok p) :
    p = .like negated style c (.value v) := by
  unfold pattern at h
  split at h <;> cases h
  rfl

/-- The predicate of an operator reads its column and no other. -/
theorem Operator.columns_apply {o : Operator} {c : ColumnRef} {v : Value} {p : Predicate}
    (h : o.apply c v = .ok p) : p.columns = [c] := by
  have hcomparison : ∀ op, comparison op c v = .ok p → p.columns = [c] := by
    intro op h
    unfold comparison at h
    split at h <;> cases h <;> rfl
  have hpattern : ∀ negated style q, pattern negated style c v = .ok q → q.columns = [c] ∧
      q.negate.columns = [c] := by
    intro negated style q h
    rw [pattern_eq_ok h]
    exact ⟨rfl, rfl⟩
  cases o with
  | equal => exact hcomparison _ h
  | notEqual => exact hcomparison _ h
  | greater => exact hcomparison _ h
  | greaterOrEqual => exact hcomparison _ h
  | less => exact hcomparison _ h
  | lessOrEqual => exact hcomparison _ h
  | like => exact (hpattern _ _ _ h).1
  | notLike => exact (hpattern _ _ _ h).1
  | foldedLike => exact (hpattern _ _ _ h).1
  | startsWith => exact (hpattern _ _ _ h).1
  | between =>
    simp only [apply, betweenBounds] at h
    split at h <;> cases h
    rfl
  | negatedLike =>
    obtain ⟨q, hq, rfl⟩ := ok_of_map h
    exact (hpattern _ _ _ hq).2
  | isIn | isNotIn | isNull | isNotNull | nullCheck =>
    cases h
    rfl

/-- Whether the key of a parameter names a column of the root. -/
def Entity.isNamedBy (root : Entity) (key : String) : Bool :=
  root.hasField key ||
    (match splitFilterKey? key with
     | some (path, _) =>
       let aliasName := (Text.splitLastDot path).1
       aliasName.isEmpty || aliasName == root.aliasName
     | none => false)

/-- The parameters of a query name columns of the root only. -/
def Descriptor.FiltersRoot (root : Entity) (d : Descriptor) : Prop :=
  ∀ e ∈ d.parameters.entries, root.isNamedBy e.1 = true

instance (root : Entity) (d : Descriptor) : Decidable (d.FiltersRoot root) :=
  inferInstanceAs (Decidable (∀ e ∈ d.parameters.entries, _))

namespace Plan

variable {s : Schema} {p : Plan}

/-- Columns of the root at its place. -/
def OnRoot (q : Predicate) : Prop := ∀ c ∈ q.columns, c.owner = .entity 0

theorem onRoot_apply {o : Operator} {c : ColumnRef} {v : Value} {q : Predicate}
    (hc : c.owner = .entity 0) (h : o.apply c v = .ok q) : OnRoot q := by
  intro d hd
  rw [Operator.columns_apply h, List.mem_singleton] at hd
  rw [hd, hc]

theorem owner_column? {o : Occurrence} {field : String} {c : ColumnRef}
    (h : o.column? field = some c) : c.owner = .entity o.position := by
  obtain ⟨column, -, rfl⟩ := Option.map_eq_some_iff.mp h
  rfl

/-- A key that names a column of the root, and is no field itself, has a path of the root. -/
theorem splitPath_of_isNamedBy {key path name : String} (hkey : p.root.isNamedBy key = true)
    (hfield : (rootOccurrence p.root).column? key = none)
    (hsplit : splitFilterKey? key = some (path, name)) : (p.splitPath path).1 = p.rootAlias := by
  have hno : p.root.hasField key = false := by
    rw [Entity.hasField, Option.isSome_eq_false_iff, Option.isNone_iff_eq_none]
    simpa [Occurrence.column?, rootOccurrence] using hfield
  simp only [Entity.isNamedBy, hno, hsplit, Bool.false_or, Bool.or_eq_true, beq_iff_eq] at hkey
  unfold splitPath
  dsimp only
  split
  · rfl
  · exact hkey.resolve_left ‹_›

theorem parameterPredicate_onRoot (hp : p.Layout s) {operators : OperatorTable Operator}
    {key : String} {v : Value} {q : Predicate} (hkey : p.root.isNamedBy key = true)
    (h : p.parameterPredicate operators key v = .ok q) : OnRoot q := by
  unfold parameterPredicate at h
  split at h
  · rename_i c hc
    exact onRoot_apply (owner_column? hc) h
  · rename_i hnone
    cases hsplit : splitFilterKey? key with
    | none =>
      rw [hsplit] at h
      cases h
    | some parts =>
      obtain ⟨path, name⟩ := parts
      rw [hsplit] at h
      obtain ⟨operator, -, h⟩ := ok_of_bind h
      obtain ⟨c, hc, h⟩ := ok_of_bind h
      have hfind : p.names.find? (p.splitPath path).1 = some (rootOccurrence p.root) := by
        rw [splitPath_of_isNamedBy hkey hnone hsplit]
        exact hp.root_name
      unfold Plan.column at hc
      simp only [hfind] at hc
      split at hc
      · cases hc
      · rename_i c' hc'
        cases hc
        exact onRoot_apply (owner_column? hc') h

/-- Parameters that name columns of the root do not depend on the joins. -/
theorem parameterPredicate_congr {q : Plan} (hp : p.Layout s) (hq : q.Layout s)
    (hroot : q.root = p.root) (operators : OperatorTable Operator) {key : String} (v : Value)
    (hkey : p.root.isNamedBy key = true) :
    q.parameterPredicate operators key v = p.parameterPredicate operators key v := by
  unfold parameterPredicate
  rw [hroot]
  cases hnone : (rootOccurrence p.root).column? key with
  | some c => rfl
  | none =>
    cases hsplit : splitFilterKey? key with
    | none => rfl
    | some parts =>
      obtain ⟨path, name⟩ := parts
      have hpath : q.splitPath path = p.splitPath path := by
        unfold splitPath rootAlias
        rw [hroot]
      have halias := splitPath_of_isNamedBy hkey hnone hsplit
      have hqname : q.names.find? p.rootAlias = some (rootOccurrence p.root) := by
        have := hq.root_name
        rwa [rootAlias, hroot] at this
      have hcolumn : q.column path = p.column path := by
        unfold Plan.column
        rw [hpath]
        simp only [halias, hp.root_name, hqname]
      simp only [hcolumn]

/-- The predicates of a plan are those of its parameters. -/
theorem predicates_build {operators : OperatorTable Operator} {root : Entity} {d : Descriptor}
    (h : (build s operators root d).plan = .ok p) :
    (d.parameters.entries.mapM fun e => p.parameterPredicate operators e.1 e.2) = .ok p.predicates := by
  obtain ⟨first, joined, filtered, hs, hr, hf, rfl⟩ := build_eq_ok h
  obtain ⟨predicates, hpredicates, rfl⟩ := addParameters_eq_ok hf
  have hnone := (frame_joined hs hr).2.1
  change (d.parameters.entries.mapM fun e => joined.parameterPredicate operators e.1 e.2) =
    .ok (joined.predicates ++ predicates)
  rw [hnone, List.nil_append]
  exact hpredicates

/-- The condition that a root inside a family is of its kind. -/
def kindConditions (root : Entity) : List Predicate :=
  match root.family with
  | some f =>
    if root.isFamilyHead then []
    else [.member false ((rootOccurrence root).columnNamed f.column) [.text f.kind]]
  | none => []

theorem mem_kindConditions {root : Entity} {q : Predicate} (hq : q ∈ kindConditions root) :
    ∃ f, root.family = some f ∧
      q = .member false ((rootOccurrence root).columnNamed f.column) [.text f.kind] := by
  unfold kindConditions at hq
  split at hq
  · rename_i f hf
    split at hq
    · cases hq
    · exact ⟨f, hf, List.mem_singleton.mp hq⟩
  · cases hq

theorem onRoot_kindConditions (root : Entity) : ∀ k ∈ kindConditions root, OnRoot k := by
  intro k hk column hcolumn
  obtain ⟨f, -, rfl⟩ := mem_kindConditions hk
  rw [List.mem_singleton.mp hcolumn]
  rfl

theorem conditions_eq_append (p : Plan) : p.conditions = p.predicates ++ kindConditions p.root := rfl

/-- A condition is a filter, or the one that the root is of its kind. -/
theorem mem_conditions {q : Predicate} (hq : q ∈ p.conditions) : q ∈ p.predicates ∨
    ∃ f, p.root.family = some f ∧
      q = .member false ((rootOccurrence p.root).columnNamed f.column) [.text f.kind] := by
  rw [conditions_eq_append] at hq
  exact (List.mem_append.mp hq).imp_right mem_kindConditions

/-- Where the parameters name columns of the root, so do all conditions of the plan. -/
theorem conditions_onRoot {operators : OperatorTable Operator} {root : Entity} {d : Descriptor}
    (hd : d.DistinctAliases root) (hf : d.FiltersRoot root)
    (h : (build s operators root d).plan = .ok p) : ∀ q ∈ p.conditions, OnRoot q := by
  have hroot : p.root = root := (build_frame h).1
  intro q hq
  rw [conditions_eq_append] at hq
  rcases List.mem_append.mp hq with hq | hq
  · obtain ⟨e, he, hpredicate⟩ := mem_of_mapM (predicates_build h) hq
    exact parameterPredicate_onRoot (layout_build hd h) (hroot.symm ▸ hf e he) hpredicate
  · exact onRoot_kindConditions p.root q hq

/-- Rows of one root satisfy the same conditions on it. -/
theorem holds_onRoot {q : Predicate} (hq : OnRoot q) {row other : JoinedRow}
    (h : List.lookup (.entity 0) row = List.lookup (.entity 0) other) :
    q.holds row = q.holds other := by
  unfold Predicate.holds
  rw [Predicate.eval_congr q fun c hc => ?_]
  unfold JoinedRow.get
  rw [hq c hc, h]

end Plan
end EntityQuery
