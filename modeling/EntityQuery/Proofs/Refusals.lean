import EntityQuery.Execution.Run
import EntityQuery.Proofs.Layout
import EntityQuery.Proofs.QueryStrings
/-!
Plans of query strings. What keeps a plan from being built is always told to the caller. What the filters
put into a statement can be bound, except where an operator that compares with one value is given several.
-/
namespace EntityQuery

open QueryString

/-- A parameter fits its type and can be stored. -/
def Parameter.Binds (p : Parameter) : Prop := ∃ c, p.cell = .ok c

namespace Predicate

/-- All parameters of a predicate can be bound. -/
def Binds (q : Predicate) : Prop := ∀ p ∈ q.parameters, p.Binds

@[simp] theorem binds_compare_value {op : Comparison} {c : ColumnRef} {v : Value} :
    (compare op c (.value v)).Binds ↔ (Parameter.single c v).Binds := by
  simp [Binds, parameters, Operand.parameters]

@[simp] theorem binds_like_value {negated : Bool} {style : PatternStyle} {c : ColumnRef} {v : Value} :
    (like negated style c (.value v)).Binds ↔ (Parameter.single c v).Binds := by
  simp [Binds, parameters, Operand.parameters]

@[simp] theorem binds_nullTest (isNull : Bool) (c : ColumnRef) : (nullTest isNull c).Binds := by
  simp [Binds, parameters]

end Predicate

namespace Parameter

theorem binds_text (c : ColumnRef) (s : String) : (single c (.text s)).Binds := ⟨.text s, rfl⟩

theorem not_binds_list (c : ColumnRef) (vs : List Value) : ¬ (single c (.list vs)).Binds := by
  rintro ⟨cell, hcell⟩
  have htype : (single c (.list vs)).type = .ofColumn c.column.type := rfl
  unfold Parameter.cell at hcell
  rw [htype] at hcell
  cases h : c.column.type <;> rw [h] at hcell <;> cases hcell

theorem binds_several (c : ColumnRef) (ss : List String) :
    ∀ p ∈ several c (ss.map .text), p.Binds := by
  intro p hp
  obtain ⟨v, hv, rfl⟩ := List.mem_map.mp hp
  obtain ⟨s, -, rfl⟩ := List.mem_map.mp hv
  cases ss with
  | nil => cases hv
  | cons t ss => exact ⟨.text s, rfl⟩

end Parameter

/-- One text can be bound, a list of texts cannot. -/
theorem Parameter.binds_filterValue {ss : List String} (hss : ss ≠ []) (c : ColumnRef) :
    (single c (filterValue ss)).Binds ↔ ¬ 2 ≤ ss.length := by
  rcases ss with _ | ⟨s, _ | ⟨t, ss⟩⟩
  · exact absurd rfl hss
  · exact iff_of_true (binds_text c s) (by simp)
  · exact iff_of_false (not_binds_list c _) (by simp)

namespace Operator

/-- Whether an operator compares with one value. -/
def takesOne : Operator → Bool
  | equal | notEqual | greater | greaterOrEqual | less | lessOrEqual => true
  | like | notLike | foldedLike | startsWith | negatedLike => true
  | isIn | isNotIn | between | isNull | isNotNull | nullCheck => false

theorem comparison_filterValue (op : Comparison) (c : ColumnRef) (ss : List String) :
    comparison op c (filterValue ss) = .ok (.compare op c (.value (filterValue ss))) := by
  rcases ss with _ | ⟨s, _ | ⟨t, ss⟩⟩ <;> cases op <;> rfl

theorem pattern_filterValue (negated : Bool) (style : PatternStyle) (c : ColumnRef)
    (ss : List String) :
    pattern negated style c (filterValue ss) = .ok (.like negated style c (.value (filterValue ss))) := by
  rcases ss with _ | ⟨s, _ | ⟨t, ss⟩⟩ <;> rfl

/-- The predicate that an operator makes of the values of a filter. -/
theorem binds_apply {o : Operator} {c : ColumnRef} {ss : List String} (hss : ss ≠ []) {q : Predicate}
    (h : o.apply c (filterValue ss) = .ok q) : q.Binds ↔ ¬ (o.takesOne = true ∧ 2 ≤ ss.length) := by
  have hsingle := Parameter.binds_filterValue hss c
  cases o with
  | equal | notEqual | greater | greaterOrEqual | less | lessOrEqual =>
    simp only [apply, comparison_filterValue] at h
    cases h
    simp [takesOne, hsingle]
  | like | notLike | foldedLike | startsWith | negatedLike =>
    simp only [apply, pattern_filterValue] at h
    cases h
    simp [takesOne, Predicate.negate, hsingle]
  | isIn | isNotIn =>
    cases h
    rw [asItems_filterValue]
    simpa [takesOne, Predicate.Binds, Predicate.parameters] using Parameter.binds_several c ss
  | between =>
    simp only [apply, betweenBounds, asItems_filterValue] at h
    rcases ss with _ | ⟨low, _ | ⟨high, _ | ⟨more, ss⟩⟩⟩
    · exact absurd rfl hss
    · cases h
    · cases h
      simp [takesOne, Predicate.Binds, Predicate.parameters, Parameter.binds_text]
    · cases h
  | isNull | isNotNull | nullCheck =>
    cases h
    simp [takesOne]

/-- An operator refuses the values of a filter only where their number is not right. -/
theorem apply_error {o : Operator} {c : ColumnRef} {ss : List String} {e : QueryError}
    (h : o.apply c (filterValue ss) = .error e) : e.kind.isRefusal = true := by
  cases o with
  | equal | notEqual | greater | greaterOrEqual | less | lessOrEqual =>
    simp only [apply, comparison_filterValue] at h
    cases h
  | like | notLike | foldedLike | startsWith | negatedLike =>
    simp only [apply, pattern_filterValue] at h
    cases h
  | between =>
    simp only [apply, betweenBounds] at h
    split at h
    · cases h
    · cases h
      rfl
  | isIn | isNotIn | isNull | isNotNull | nullCheck => cases h

end Operator

namespace Plan

variable {s : Schema} {p q : Plan} {operators : OperatorTable Operator}

/-- The operator that a filter key names: equality for a field of the root. -/
def filterOperator? (operators : OperatorTable Operator) (root : Entity) (key : String) :
    Option Operator :=
  if root.hasField key then some .equal
  else (splitFilterKey? key).bind fun parts => (operators.resolve parts.2).toOption

theorem column_error {path : String} {e : QueryError} (h : p.column path = .error e) :
    e.kind.isRefusal = true := by
  unfold column at h
  dsimp only at h
  split at h
  · cases h
    rfl
  · split at h
    · cases h
      rfl
    · cases h

theorem resolve_error {name : String} {e : QueryError} (h : operators.resolve name = .error e) :
    e.kind.isRefusal = true := by
  unfold OperatorTable.resolve at h
  split at h
  · cases h
  · split at h
    · cases h
    · unfold OperatorTable.get at h
      split at h
      · cases h
      · cases h
        rfl

/-- A filter that is accepted becomes what its operator makes of its values. -/
theorem parameterPredicate_eq_ok {key : String} {v : Value} {x : Predicate}
    (h : p.parameterPredicate operators key v = .ok x) :
    ∃ o c, filterOperator? operators p.root key = some o ∧ o.apply c v = .ok x := by
  unfold parameterPredicate at h
  have hfield : p.root.hasField key = ((rootOccurrence p.root).column? key).isSome := by
    rw [Occurrence.column?, Option.isSome_map]
    rfl
  unfold filterOperator?
  rw [hfield]
  cases hcolumn : (rootOccurrence p.root).column? key with
  | some c =>
    rw [hcolumn] at h
    exact ⟨.equal, c, rfl, h⟩
  | none =>
    rw [hcolumn] at h
    cases hkey : splitFilterKey? key with
    | none =>
      rw [hkey] at h
      cases h
    | some parts =>
      rw [hkey] at h
      obtain ⟨o, ho, h⟩ := ok_of_bind h
      obtain ⟨c, -, h⟩ := ok_of_bind h
      exact ⟨o, c, by simp [ho, Except.toOption], h⟩

theorem parameterPredicate_error {key : String} {ss : List String} {e : QueryError}
    (h : p.parameterPredicate operators key (filterValue ss) = .error e) :
    e.kind.isRefusal = true := by
  unfold parameterPredicate at h
  split at h
  · exact Operator.apply_error h
  · split at h
    · cases h
      rfl
    · rename_i path name _
      cases ho : operators.resolve name with
      | error e' =>
        rw [ho] at h
        cases h
        exact resolve_error ho
      | ok o =>
        cases hc : p.column path with
        | error e' =>
          simp only [ho, hc, bind, Except.bind] at h
          cases h
          exact column_error hc
        | ok c =>
          simp only [ho, hc, bind, Except.bind] at h
          exact Operator.apply_error h

theorem addParameters_error {parameters : List (String × Value)} {e : QueryError}
    (h : p.addParameters operators parameters = .error e) :
    ∃ x ∈ parameters, p.parameterPredicate operators x.1 x.2 = .error e := by
  unfold addParameters at h
  cases hm : parameters.mapM fun x => p.parameterPredicate operators x.1 x.2 with
  | error e' =>
    simp only [hm] at h
    cases h
    exact error_of_mapM hm
  | ok predicates =>
    simp only [hm] at h
    cases h

theorem start_error {root : Entity} {d : Descriptor} {e : QueryError} (h : start root d = .error e) :
    e.kind.isRefusal = true := by
  unfold start at h
  dsimp only at h
  split at h
  · cases h
    rfl
  · unfold checkedFields at h
    dsimp only at h
    split at h
    · cases h
    · cases h
      rfl

/-- A relation with a join type alone is refused only where it does not exist. -/
theorem addRelation_error {key : String} {t : JoinType} {e : QueryError}
    (h : p.addRelation s key { joinType := t } = .error e) : e.kind.isRefusal = true := by
  unfold addRelation at h
  cases htarget : p.relationTarget s key with
  | ok target =>
    rw [htarget] at h
    cases h
  | error e' =>
    rw [htarget] at h
    cases h
    unfold relationTarget at htarget
    dsimp only at htarget
    split at htarget
    · cases htarget
      rfl
    · split at htarget
      · cases htarget
        rfl
      · cases htarget

theorem addRelations_error {relations : List (String × RelationOptions)}
    (hrelations : ∀ e ∈ relations, ∃ t, e.2 = { joinType := t }) {e : QueryError}
    (h : (p.addRelations s relations).2 = some e) : e.kind.isRefusal = true := by
  induction relations generalizing p with
  | nil => cases h
  | cons entry rest ih =>
    obtain ⟨key, o⟩ := entry
    obtain ⟨t, rfl⟩ : ∃ t, o = { joinType := t } := hrelations _ List.mem_cons_self
    unfold addRelations at h
    cases hr : p.addRelation s key { joinType := t } with
    | ok next =>
      rw [hr] at h
      exact ih (fun entry hentry => hrelations entry (List.mem_cons_of_mem _ hentry)) h
    | error e' =>
      rw [hr] at h
      cases h
      exact addRelation_error hr

variable {root : Entity} {query : List (String × String)} {d : Descriptor}

/-- Whatever keeps the plan of a query string from being built is told to the caller. -/
theorem build_error (hd : d.FromQuery query) {e : QueryError}
    (h : (build s operators root d).plan = .error e) : e.kind.isRefusal = true := by
  rw [plan_build] at h
  rcases error_of_bind (error_of_map h) with hstart | ⟨first, -, h⟩
  · exact start_error hstart
  rcases error_of_bind h with hjoined | ⟨joined, -, hfiltered⟩
  · exact addRelations_error hd.relations (withRelations_eq_error_iff.mp hjoined)
  · obtain ⟨⟨key, v⟩, hmem, hparameter⟩ := addParameters_error hfiltered
    obtain ⟨-, rfl⟩ := (hd.parameters key v).mp hmem
    exact parameterPredicate_error hparameter

/-- A query string gives several values to a filter that compares with one. -/
def RepeatsSingle (operators : OperatorTable Operator) (root : Entity)
    (query : List (String × String)) : Prop :=
  ∃ key o, 2 ≤ (filterValues query key).length ∧ filterOperator? operators root key = some o ∧
    o.takesOne = true

/-- The filters of a plan can be bound unless one of them compares with one value and is given several. -/
theorem binds_predicates_iff (hd : d.FromQuery query)
    (h : (build s operators root d).plan = .ok p) :
    (∀ q ∈ p.predicates, q.Binds) ↔ ¬ RepeatsSingle operators root query := by
  obtain ⟨first, joined, filtered, hstart, hjoined, hfiltered, rfl⟩ := build_eq_ok h
  obtain ⟨predicates, hpredicates, rfl⟩ := addParameters_eq_ok hfiltered
  obtain ⟨hroot, hnone, -⟩ := frame_joined hstart hjoined
  have hplan : ∀ q, q ∈ (({ joined with predicates := joined.predicates ++ predicates } : Plan).withSort
      s d.sort.entries).predicates ↔ q ∈ predicates := fun q => by
    change q ∈ joined.predicates ++ predicates ↔ _
    rw [hnone, List.nil_append]
  simp only [hplan]
  have hone : ∀ key, filterValues query key ≠ [] → ∃ o q, q ∈ predicates ∧
      filterOperator? operators root key = some o ∧
      (q.Binds ↔ ¬ (o.takesOne = true ∧ 2 ≤ (filterValues query key).length)) := fun key hkey => by
    obtain ⟨q, hq, hparameter⟩ :=
      exists_of_mem_mapM hpredicates ((hd.parameters key _).mpr ⟨hkey, rfl⟩)
    obtain ⟨o, c, ho, happly⟩ := parameterPredicate_eq_ok hparameter
    exact ⟨o, q, hq, hroot ▸ ho, Operator.binds_apply hkey happly⟩
  constructor
  · rintro hbinds ⟨key, o, hlength, ho, htakes⟩
    have hkey : filterValues query key ≠ [] := fun e => by simp [e] at hlength
    obtain ⟨o', q, hq, ho', hiff⟩ := hone key hkey
    cases ho.symm.trans ho'
    exact hiff.mp (hbinds q hq) ⟨htakes, hlength⟩
  · intro hno q hq
    obtain ⟨⟨key, v⟩, hmem, hparameter⟩ := mem_of_mapM hpredicates hq
    obtain ⟨hkey, rfl⟩ := (hd.parameters key v).mp hmem
    obtain ⟨o, c, ho, happly⟩ := parameterPredicate_eq_ok hparameter
    exact (Operator.binds_apply hkey happly).mpr fun hrepeats =>
      hno ⟨key, o, hrepeats.2, hroot ▸ ho, hrepeats.1⟩

end Plan
end EntityQuery
