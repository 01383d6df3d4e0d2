import EntityQuery.Model.Blog
import EntityQuery.Proofs.FilterLanguage
import EntityQuery.Proofs.LowerCase
import EntityQuery.Proofs.Registrations
/-!
Spellings of operators in filter keys. A table gives one operator for all names that are the same in lower
case. The two reserved names are compared as they are written, before the table is asked; in another spelling
they are looked up in the table, where a reserved name never stands.
-/
namespace EntityQuery

/-- Two attempts give the same, or both fail with errors of one kind. -/
inductive SameOutcome {α : Type} : Except QueryError α → Except QueryError α → Prop
  | same (a : α) : SameOutcome (.ok a) (.ok a)
  | failed {e e' : QueryError} (h : e.kind = e'.kind) : SameOutcome (.error e) (.error e')

namespace SameOutcome

variable {α β : Type} {x y : Except QueryError α}

theorem refl (x : Except QueryError α) : SameOutcome x x := by
  cases x with
  | error e => exact .failed rfl
  | ok a => exact .same a

theorem symm (h : SameOutcome x y) : SameOutcome y x := by
  cases h with
  | same a => exact .same a
  | failed h => exact .failed h.symm

theorem bind (h : SameOutcome x y) (f : α → Except QueryError β) : SameOutcome (x >>= f) (y >>= f) := by
  cases h with
  | same a => exact refl _
  | failed h => exact .failed h

/-- The kind of the error of an attempt is that of the other one. -/
theorem kind_eq {e : QueryError} (h : SameOutcome (.error e) y) : ∃ e', y = .error e' ∧ e.kind = e'.kind := by
  cases h with
  | failed h => exact ⟨_, rfl, h⟩

end SameOutcome

/-! ### Names of operators -/

namespace OperatorTable

variable {t : OperatorTable Operator} {history : List (String × Operator)} {name name' : String}

theorem lower_of_mem_reservedNames : ∀ r ∈ Operator.reservedNames, Text.lower r = r := by decide +kernel

theorem resolve_of_unreserved (h : name ∉ Operator.reservedNames) : t.resolve name = t.get name := by
  simp only [Operator.reservedNames, List.mem_cons, List.not_mem_nil, or_false, not_or] at h
  rw [resolve, if_neg h.1, if_neg h.2]

theorem exists_resolve_of_reserved (h : name ∈ Operator.reservedNames) : ∃ o, t.resolve name = .ok o := by
  simp only [Operator.reservedNames, List.mem_cons, List.not_mem_nil, or_false] at h
  rcases h with rfl | rfl
  · exact ⟨.negatedLike, rfl⟩
  · exact ⟨.nullCheck, rfl⟩

/-- Looked up, a reserved name is found in no spelling. -/
theorem Holds.get_of_reserved (h : t.Holds history) (hname : Text.lower name ∈ Operator.reservedNames) :
    t.get name = .error (.unknownOperator name) := by
  rcases h.get_cases name with ⟨e, he, -⟩ | ⟨-, hget⟩
  · have hin : e ∈ history.filter fun e => Text.lower e.1 = Text.lower name := by simp [he]
    obtain ⟨hmem, hlower⟩ := List.mem_filter.mp hin
    exact absurd hname (of_decide_eq_true hlower ▸ (h.names e hmem).2)
  · exact hget

/-- Names that are the same in lower case are looked up alike. -/
theorem sameOutcome_get (t : OperatorTable Operator) (hlower : Text.lower name = Text.lower name') :
    SameOutcome (t.get name) (t.get name') := by
  unfold get
  rw [hlower]
  cases OrderedMap.find? t (Text.lower name') with
  | none => exact .failed rfl
  | some o => exact .same o

/-- They are resolved alike if a reserved name is either of them or none. -/
theorem sameOutcome_resolve (t : OperatorTable Operator) (hlower : Text.lower name = Text.lower name')
    (hreserved : ∀ r ∈ Operator.reservedNames, name = r ↔ name' = r) :
    SameOutcome (t.resolve name) (t.resolve name') := by
  by_cases hname : name ∈ Operator.reservedNames
  · rw [(hreserved name hname).mp rfl]
    exact .refl _
  · have hname' : name' ∉ Operator.reservedNames := fun h => hname ((hreserved name' h).mpr rfl ▸ h)
    rw [resolve_of_unreserved hname, resolve_of_unreserved hname']
    exact sameOutcome_get t hlower

/-- A reserved name is resolved as it is written, and in no other spelling. -/
theorem Holds.resolve_of_respelled (h : t.Holds history) {r : String} (hr : r ∈ Operator.reservedNames)
    (hlower : Text.lower name = r) (hne : name ≠ r) :
    t.resolve name = .error (.unknownOperator name) := by
  have hname : name ∉ Operator.reservedNames := fun hmem =>
    hne ((lower_of_mem_reservedNames name hmem).symm.trans hlower)
  rw [resolve_of_unreserved hname]
  exact h.get_of_reserved (hlower ▸ hr)

end OperatorTable

theorem Operator.kind_of_apply_error {o : Operator} {c : ColumnRef} {v : Value} {e : QueryError}
    (h : o.apply c v = .error e) : e.kind ≠ .unknownOperator := by
  have hcomparison : ∀ {op}, comparison op c v = .error e → e = .unsuitableOperand := by
    intro op h
    unfold comparison at h
    split at h <;> cases h <;> rfl
  have hpattern : ∀ {negated style}, pattern negated style c v = .error e → e = .unsuitableOperand := by
    intro negated style h
    unfold pattern at h
    split at h <;> cases h <;> rfl
  cases o with
  | equal | notEqual | greater | greaterOrEqual | less | lessOrEqual =>
    rw [hcomparison h]
    decide
  | like | notLike | foldedLike | startsWith =>
    rw [hpattern h]
    decide
  | negatedLike =>
    rw [hpattern (error_of_map h)]
    decide
  | between =>
    simp only [apply, betweenBounds] at h
    split at h <;> cases h
    decide
  | isIn | isNotIn | isNull | isNotNull | nullCheck => cases h

namespace Plan

variable {operators : OperatorTable Operator} {p : Plan} {path m m' : String}

theorem kind_of_column_error {e : QueryError} (h : p.column path = .error e) : e.kind = .invalidArgument := by
  unfold column at h
  dsimp only at h
  split at h
  · cases h
    rfl
  · split at h <;> cases h
    rfl

/-- The predicate of a path, an operator and a value. -/
def pathPredicate (operators : OperatorTable Operator) (p : Plan) (path name : String) (v : Value) :
    Except QueryError Predicate := do
  let o ← operators.resolve name
  let c ← p.column path
  o.apply c v

/-- A path is not told to be an unknown operator, and neither is a value. -/
theorem kind_of_pathPredicate_error {v : Value} {o : Operator} {e : QueryError}
    (ho : operators.resolve m = .ok o) (h : p.pathPredicate operators path m v = .error e) :
    e.kind ≠ .unknownOperator := by
  unfold pathPredicate at h
  rw [ho] at h
  have hbind : (p.column path >>= fun c => o.apply c v) = .error e := h
  rcases error_of_bind hbind with hcolumn | ⟨c, -, happly⟩
  · rw [kind_of_column_error hcolumn]
    decide
  · exact Operator.kind_of_apply_error happly

/-- Of a reserved name and another spelling of it, only the reserved name is known as an operator. -/
theorem eq_of_sameOutcome {history : List (String × Operator)} (hholds : operators.Holds history) {v : Value}
    (hlower : Text.lower m = Text.lower m') (hm : m ∈ Operator.reservedNames)
    (h : SameOutcome (p.pathPredicate operators path m v) (p.pathPredicate operators path m' v)) :
    m' = m := by
  by_contra hne
  have hlower' : Text.lower m' = m := hlower.symm.trans (OperatorTable.lower_of_mem_reservedNames m hm)
  have hunknown : p.pathPredicate operators path m' v = .error (.unknownOperator m') := by
    rw [pathPredicate, hholds.resolve_of_respelled hm hlower' hne]
    rfl
  rw [hunknown] at h
  obtain ⟨e, he, hkind⟩ := h.symm.kind_eq
  obtain ⟨o, ho⟩ := OperatorTable.exists_resolve_of_reserved (t := operators) hm
  exact kind_of_pathPredicate_error ho he hkind.symm

/-- A key with one colon means a path and an operator; one with more means nothing. -/
theorem parameterPredicate_path (operators : OperatorTable Operator) (v : Value)
    (hfield : p.root.hasField (path ++ ":" ++ m) = false) :
    p.parameterPredicate operators (path ++ ":" ++ m) v =
      if ':' ∈ path.toList ∨ ':' ∈ m.toList then .error (.malformedParameter (path ++ ":" ++ m))
      else p.pathPredicate operators path m v := by
  have hcolumn : (rootOccurrence p.root).column? (path ++ ":" ++ m) = none := by
    simpa [column?_rootOccurrence, Entity.hasField] using hfield
  unfold parameterPredicate
  rw [hcolumn]
  dsimp only
  by_cases hcolons : ':' ∈ path.toList ∨ ':' ∈ m.toList
  · have hcount : (path ++ ":" ++ m).toList.count ':' ≠ 1 := by
      have hpositive : 0 < path.toList.count ':' + m.toList.count ':' := by
        rcases hcolons with h | h <;> have := List.count_pos_iff.mpr h <;> omega
      simp
      omega
    rw [if_pos hcolons, splitFilterKey?_eq_none_iff.mpr hcount]
  · rw [if_neg hcolons]
    rw [not_or] at hcolons
    rw [splitFilterKey?_append hcolons.1 hcolons.2]
    rfl

/-- Two filters do the same to a plan: both add one predicate, or both are refused with errors of one
kind. -/
def AddsAlike (operators : OperatorTable Operator) (p : Plan) (e e' : String × Value) : Prop :=
  (∃ q, p.addParameters operators [e] = .ok { p with predicates := p.predicates ++ [q] } ∧
    p.addParameters operators [e'] = .ok { p with predicates := p.predicates ++ [q] }) ∨
  ∃ err err', p.addParameters operators [e] = .error err ∧
    p.addParameters operators [e'] = .error err' ∧ err.kind = err'.kind

theorem addParameters_singleton (operators : OperatorTable Operator) (p : Plan) (e : String × Value) :
    p.addParameters operators [e] = (p.parameterPredicate operators e.1 e.2).map fun q =>
      { p with predicates := p.predicates ++ [q] } := by
  rw [addParameters_eq, List.mapM_cons, List.mapM_nil]
  cases p.parameterPredicate operators e.1 e.2 <;> rfl

theorem addsAlike_iff_sameOutcome {e e' : String × Value} : p.AddsAlike operators e e' ↔
    SameOutcome (p.parameterPredicate operators e.1 e.2) (p.parameterPredicate operators e'.1 e'.2) := by
  unfold AddsAlike
  rw [addParameters_singleton, addParameters_singleton]
  constructor
  · rintro (⟨q, h, h'⟩ | ⟨err, err', h, h', hkind⟩)
    · obtain ⟨x, hx, hq⟩ := ok_of_map h
      obtain ⟨x', hx', hq'⟩ := ok_of_map h'
      have hsame : x = x' := by simpa using (congrArg predicates (hq.trans hq'.symm))
      rw [hx, hx', hsame]
      exact .same x'
    · rw [error_of_map h, error_of_map h']
      exact .failed hkind
  · generalize p.parameterPredicate operators e.1 e.2 = x, p.parameterPredicate operators e'.1 e'.2 = x'
    intro h
    cases h with
    | same q => exact .inl ⟨q, rfl, rfl⟩
    | failed hkind => exact .inr ⟨_, _, rfl, rfl, hkind⟩

/-- Filters whose operators are the same in lower case do the same, whatever operators have been registered,
unless the key means a path and an operator and just one of the spellings is a reserved name. -/
theorem addsAlike_iff (requests : List (OperatorTable.Request Operator)) (p : Plan) (v : Value)
    (hlower : Text.lower m = Text.lower m') (hfield : p.root.hasField (path ++ ":" ++ m) = false)
    (hfield' : p.root.hasField (path ++ ":" ++ m') = false) :
    p.AddsAlike (OperatorTable.builtIn.after requests) (path ++ ":" ++ m, v) (path ++ ":" ++ m', v) ↔
      ':' ∈ path.toList ∨ ∀ r ∈ Operator.reservedNames, m = r ↔ m' = r := by
  have hholds := OperatorTable.builtInAs_id ▸ OperatorTable.holds_after_builtInAs id requests
  have hcolon : ':' ∈ m.toList ↔ ':' ∈ m'.toList := by
    rw [← Text.mem_lower_iff (by decide) (by decide), hlower, Text.mem_lower_iff (by decide) (by decide)]
  rw [addsAlike_iff_sameOutcome, parameterPredicate_path _ v hfield, parameterPredicate_path _ v hfield']
  by_cases hcolons : ':' ∈ path.toList ∨ ':' ∈ m.toList
  · rw [if_pos hcolons, if_pos (hcolons.imp id hcolon.mp)]
    refine iff_of_true (.failed rfl) ?_
    rcases hcolons with hpath | hm
    · exact .inl hpath
    · -- a reserved name has no colon
      have hcolonless : ∀ r ∈ Operator.reservedNames, ':' ∉ r.toList := by decide
      refine .inr fun r hr => iff_of_false ?_ ?_
      · rintro rfl
        exact hcolonless m hr hm
      · rintro rfl
        exact hcolonless m' hr (hcolon.mp hm)
  · rw [if_neg hcolons, if_neg fun h => hcolons (h.imp id hcolon.mpr)]
    constructor
    · intro h
      refine .inr fun r hr => ⟨?_, ?_⟩
      · rintro rfl
        exact eq_of_sameOutcome hholds hlower hr h
      · rintro rfl
        exact eq_of_sameOutcome hholds hlower.symm hr h.symm
    · rintro (hpath | hreserved)
      · exact absurd (.inl hpath) hcolons
      · exact (OperatorTable.sameOutcome_resolve _ hlower hreserved).bind _

/-- With the Kelvin sign in it, the name of an operator still means that operator. -/
theorem addsAlike_like : Text.lower "li\u212ae" = Text.lower "LIKE" ∧
    Model.Blog.article.hasField ("title" ++ ":" ++ "li\u212ae") = false ∧
    Model.Blog.article.hasField ("title" ++ ":" ++ "LIKE") = false ∧
    (ofRoot Model.Blog.article).AddsAlike
      (OperatorTable.builtIn.after [.register "StartsWith" (some .startsWith), .get "startswith"])
      ("title" ++ ":" ++ "li\u212ae", .text "%x%") ("title" ++ ":" ++ "LIKE", .text "%x%") := by
  have hlower : Text.lower "li\u212ae" = Text.lower "LIKE" := by decide +kernel
  have hkelvin : Model.Blog.article.hasField ("title" ++ ":" ++ "li\u212ae") = false := by decide +kernel
  have hcapital : Model.Blog.article.hasField ("title" ++ ":" ++ "LIKE") = false := by decide +kernel
  exact ⟨hlower, hkelvin, hcapital,
    (addsAlike_iff _ _ (.text "%x%") hlower hkelvin hcapital).mpr (.inr (by decide))⟩

/-- In capitals, the negation of `like` is no operator. -/
theorem not_addsAlike_nlike : Text.lower "NLIKE" = Text.lower "nlike" ∧
    Model.Blog.article.hasField ("title" ++ ":" ++ "NLIKE") = false ∧
    Model.Blog.article.hasField ("title" ++ ":" ++ "nlike") = false ∧
    ¬ (ofRoot Model.Blog.article).AddsAlike OperatorTable.builtIn
      ("title" ++ ":" ++ "NLIKE", .text "%x%") ("title" ++ ":" ++ "nlike", .text "%x%") := by
  refine ⟨by decide +kernel, by decide +kernel, by decide +kernel, ?_⟩
  have hcapital : ((ofRoot Model.Blog.article).addParameters OperatorTable.builtIn
      [("title" ++ ":" ++ "NLIKE", .text "%x%")]).toOption.isSome = false := by decide +kernel
  have hsmall : ((ofRoot Model.Blog.article).addParameters OperatorTable.builtIn
      [("title" ++ ":" ++ "nlike", .text "%x%")]).toOption.isSome = true := by decide +kernel
  rintro (⟨q, h, -⟩ | ⟨_, _, -, h, -⟩)
  · rw [h] at hcapital
    cases hcapital
  · rw [h] at hsmall
    cases hsmall

end Plan
end EntityQuery
