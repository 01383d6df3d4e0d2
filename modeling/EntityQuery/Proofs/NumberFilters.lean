import EntityQuery.Proofs.NumberTexts
/-!
Filters by numbers. The values of a query string are texts; still a filter on a column of integers keeps
the same roots for the decimal texts of integers as for the integers themselves, in a list and in a count.
-/
namespace EntityQuery

/-- With another value under a name, a map has its other entries in their places. -/
theorem OrderedMap.forall₂_insert {α : Type} {R : String × α → String × α → Prop} {m : OrderedMap α}
    {name : String} {v w : α} (hmem : (name, w) ∈ m.entries) (hrefl : ∀ e, R e e)
    (h : R (name, v) (name, w)) : List.Forall₂ R (m.insert name v).entries m.entries := by
  have hlist : ∀ entries : List (String × α), (entries.map Prod.fst).Nodup → (name, w) ∈ entries →
      List.Forall₂ R (insertEntry name v entries) entries := by
    intro entries hnodup hmem
    induction entries with
    | nil => cases hmem
    | cons e entries ih =>
      obtain ⟨other, x⟩ := e
      rw [List.map_cons, List.nodup_cons] at hnodup
      by_cases hname : other = name
      · subst hname
        have hx : (other, w) = (other, x) := (List.mem_cons.mp hmem).resolve_right fun hrest =>
          hnodup.1 (List.mem_map.mpr ⟨_, hrest, rfl⟩)
        cases hx
        rw [insertEntry, if_pos rfl]
        exact .cons h (List.forall₂_same.mpr fun e _ => hrefl e)
      · have hrest : (name, w) ∈ entries := (List.mem_cons.mp hmem).resolve_left fun he =>
          hname (congrArg Prod.fst he).symm
        rw [insertEntry, if_neg hname]
        exact .cons (hrefl _) (ih hnodup.2 hrest)
  rw [entries_insert]
  exact hlist m.entries m.nodup hmem

/-- A query with another value for a filter. -/
def Descriptor.withFilter (key : String) (v : Value) (d : Descriptor) : Descriptor :=
  { d with parameters := d.parameters.insert key v }

/-! ### Filters -/

/-- The comparisons that filter keys name. -/
def comparisonNames : List (String × Comparison) :=
  [("eq", .equal), ("neq", .notEqual), ("gt", .greater), ("gte", .greaterOrEqual), ("lt", .less),
    ("lte", .lessOrEqual)]

theorem plain_of_comparisonNames {name : String} {op : Comparison} (h : (name, op) ∈ comparisonNames) :
    ':' ∉ name.toList ∧ '\n' ∉ name.toList := by
  have hall : ∀ e ∈ comparisonNames, ':' ∉ e.1.toList ∧ '\n' ∉ e.1.toList := by decide
  exact hall _ h

/-- The operator of a name compares as the name says. -/
theorem exists_comparison {name : String} {op : Comparison} (h : (name, op) ∈ comparisonNames) :
    ∃ o, OperatorTable.builtIn.resolve name = .ok o ∧ o.apply = Operator.comparison op := by
  simp only [comparisonNames, List.mem_cons, Prod.mk.injEq, List.not_mem_nil, or_false] at h
  rcases h with ⟨rfl, rfl⟩ | ⟨rfl, rfl⟩ | ⟨rfl, rfl⟩ | ⟨rfl, rfl⟩ | ⟨rfl, rfl⟩ | ⟨rfl, rfl⟩ <;>
    exact ⟨_, rfl, rfl⟩

/-- A filter by integers: how its key ends behind the field, the integers, a value that stands for them in
a descriptor, and which cells it keeps. -/
inductive NumberFilter : String → List ℤ → Value → (Cell → Prop) → Prop
  | bare (n : ℤ) : NumberFilter "" [n] (.integer n) fun cell =>
      compareCells .equal cell (.integer n) = some true
  | comparison {name : String} {op : Comparison} (h : (name, op) ∈ comparisonNames) (n : ℤ) :
      NumberFilter (":" ++ name) [n] (.integer n) fun cell =>
        compareCells op cell (.integer n) = some true
  | between (low high : ℤ) {v : Value} (hv : v.asItems = [.integer low, .integer high]) :
      NumberFilter (":" ++ "between") [low, high] v fun cell =>
        compareCells .greaterOrEqual cell (.integer low) = some true ∧
          compareCells .lessOrEqual cell (.integer high) = some true
  | isIn {ns : List ℤ} (hns : ns ≠ []) {v : Value} (hv : v.asItems = ns.map .integer) :
      NumberFilter (":" ++ "in") ns v fun cell =>
        ∃ n ∈ ns, compareCells .equal cell (.integer n) = some true
  | isNotIn {ns : List ℤ} (hns : ns ≠ []) {v : Value} (hv : v.asItems = ns.map .integer) :
      NumberFilter (":" ++ "notin") ns v fun cell =>
        ∀ n ∈ ns, compareCells .notEqual cell (.integer n) = some true

/-- The operator that the end of a filter key stands for. -/
inductive EndNames : String → Operator → Prop
  | bare : EndNames "" .equal
  | named {name : String} {o : Operator} (hname : ':' ∉ name.toList)
      (h : OperatorTable.builtIn.resolve name = .ok o) : EndNames (":" ++ name) o

variable {ending : String} {ns : List ℤ} {v : Value} {keeps : Cell → Prop}

theorem NumberFilter.ne_nil (h : NumberFilter ending ns v keeps) : ns ≠ [] := by
  cases h with
  | isIn hns | isNotIn hns => exact hns
  | _ => simp

/-- An operator makes of integers and of their texts predicates of a column that run alike and keep the
same cells. -/
def Operator.TakesNumbers (o : Operator) (ns : List ℤ) (v : Value) (keeps : Cell → Prop)
    (c : ColumnRef) : Prop :=
  ∃ q q', o.apply c v = .ok q ∧ o.apply c (QueryString.filterValue (ns.map toString)) = .ok q' ∧
    q.RunsAs q' ∧ q'.Binds ∧ ∀ row : JoinedRow, q.holds row = true ↔ keeps (row.get c)

section

variable {c : ColumnRef} (hc : c.column.type = .integer)

include hc

theorem Operator.takesNumbers_comparison {o : Operator} {op : Comparison}
    (ho : o.apply = Operator.comparison op) {n : ℤ} (hn : inCellRange n = true) :
    o.TakesNumbers [n] (.integer n) (fun cell => compareCells op cell (.integer n) = some true) c := by
  refine ⟨.compare op c (.value (.integer n)), .compare op c (.value (.text (toString n))), ?_, ?_,
    Predicate.runsAs_compare hc op hn, ?_, fun row => ?_⟩
  · rw [ho]
    cases op <;> rfl
  · rw [ho]
    cases op <;> rfl
  · exact Predicate.binds_compare_value.mpr (Parameter.binds_text c _)
  · rw [Predicate.holds, beq_iff_eq, Predicate.eval_compare_integer hc op hn]

theorem Operator.takesNumbers_between {low high : ℤ} (hlow : inCellRange low = true)
    (hhigh : inCellRange high = true) {v : Value} (hv : v.asItems = [.integer low, .integer high]) :
    Operator.between.TakesNumbers [low, high] v (fun cell =>
      compareCells .greaterOrEqual cell (.integer low) = some true ∧
        compareCells .lessOrEqual cell (.integer high) = some true) c := by
  refine ⟨.between c (.integer low) (.integer high),
    .between c (.text (toString low)) (.text (toString high)), ?_, rfl,
    Predicate.runsAs_between hc hlow hhigh, ?_, fun row => ?_⟩
  · rw [apply, betweenBounds, hv]
  · simp [Predicate.Binds, Predicate.parameters, Parameter.binds_text]
  · rw [Predicate.holds, beq_iff_eq, Predicate.eval_between_integers hc hlow hhigh]
    exact Truth.and_eq_true

variable {ns : List ℤ} (hns : ∀ n ∈ ns, inCellRange n = true) {v : Value}
  (hv : v.asItems = ns.map .integer)

include hns hv

/-- The lists of an operator that takes several values. -/
theorem Operator.takesNumbers_member {o : Operator} (negated : Bool)
    (ho : ∀ w, o.apply c w = .ok (.member negated c w.asItems)) {keeps : Cell → Prop}
    (hkeeps : ∀ cell : Cell, negatedIf negated (memberOf cell (ns.map .integer)) = some true ↔ keeps cell) :
    o.TakesNumbers ns v keeps c := by
  have htexts : (QueryString.filterValue (ns.map toString)).asItems = numberTexts ns := by
    rw [QueryString.asItems_filterValue, List.map_map]
    rfl
  have hruns := Predicate.runsAs_member hc negated hns
  refine ⟨.member negated c (ns.map .integer), .member negated c (numberTexts ns), ?_, ?_, hruns, ?_,
    fun row => ?_⟩
  · rw [ho, hv]
  · rw [ho, htexts]
  · rcases hruns.parameters with hsame | ⟨-, hbinds⟩
    · exact fun x hx => Parameter.binds_integers hns x (hsame ▸ hx)
    · exact hbinds
  · rw [Predicate.holds, beq_iff_eq, Predicate.eval_member_integers hc negated hns]
    exact hkeeps (row.get c)

theorem Operator.takesNumbers_isIn : Operator.isIn.TakesNumbers ns v
    (fun cell => ∃ n ∈ ns, compareCells .equal cell (.integer n) = some true) c := by
  refine takesNumbers_member hc hns hv false (fun _ => rfl) fun cell => ?_
  simp only [negatedIf, Bool.false_eq_true, if_false, memberOf_eq_true, List.mem_map,
    exists_exists_and_eq_and]

theorem Operator.takesNumbers_isNotIn : Operator.isNotIn.TakesNumbers ns v
    (fun cell => ∀ n ∈ ns, compareCells .notEqual cell (.integer n) = some true) c := by
  have hnot : ∀ t : Truth, t.not = some true ↔ t = some false := by
    rintro (_ | _ | _) <;> simp [Truth.not]
  refine takesNumbers_member hc hns hv true (fun _ => rfl) fun cell => ?_
  simp only [negatedIf, if_true, hnot, memberOf_eq_false, List.forall_mem_map]
  refine forall₂_congr fun n _ => ?_
  rw [show Comparison.notEqual = Comparison.equal.opposite from rfl, compareCells_opposite, hnot]

end

/-- The operator of a filter by integers takes them. -/
theorem NumberFilter.takesNumbers (h : NumberFilter ending ns v keeps)
    (hns : ∀ n ∈ ns, inCellRange n = true) : ∃ o, EndNames ending o ∧
      ∀ c : ColumnRef, c.column.type = .integer → o.TakesNumbers ns v keeps c := by
  cases h with
  | bare n =>
    exact ⟨.equal, .bare, fun c hc =>
      Operator.takesNumbers_comparison hc rfl (hns n List.mem_cons_self)⟩
  | comparison hname n =>
    obtain ⟨o, ho, happly⟩ := exists_comparison hname
    exact ⟨o, .named (plain_of_comparisonNames hname).1 ho, fun c hc =>
      Operator.takesNumbers_comparison hc happly (hns n List.mem_cons_self)⟩
  | between low high hv =>
    exact ⟨.between, .named (by decide) rfl, fun c hc => Operator.takesNumbers_between hc
      (hns low List.mem_cons_self) (hns high (by simp)) hv⟩
  | isIn _ hv =>
    exact ⟨.isIn, .named (by decide) rfl, fun c hc => Operator.takesNumbers_isIn hc hns hv⟩
  | isNotIn _ hv =>
    exact ⟨.isNotIn, .named (by decide) rfl, fun c hc => Operator.takesNumbers_isNotIn hc hns hv⟩

namespace Plan

variable {s : Schema} {operators : OperatorTable Operator} {p : Plan} {f : String} {c : Column}

/-- A filter key of a field of the root makes the predicate of its operator on the column of the root. -/
theorem parameterPredicate_end {o : Operator} (h : EndNames ending o) (hids : s.Identifiers)
    (hoperators : operators.HasBuiltIn) (hp : p.Layout s) (hroot : p.root ∈ s.entities)
    (hc : p.root.column? f = some c) (w : Value) :
    p.parameterPredicate operators (f ++ ending) w = o.apply ⟨.entity 0, p.rootAlias, c⟩ w := by
  cases h with
  | bare =>
    have hcolumn : (rootOccurrence p.root).column? f = some ⟨.entity 0, p.rootAlias, c⟩ := by
      rw [column?_rootOccurrence, hc]
      rfl
    rw [String.append_empty, parameterPredicate, hcolumn]
  | named hname ho =>
    rw [← String.append_assoc, parameterPredicate_append hids hroot (colonless_of_field hids hroot hc)
      hname, OperatorTable.resolve_of_hasBuiltIn hoperators ho, column_of_field hids hp hroot hc]
    rfl

end Plan

/-! ### Queries that have a filter -/

/-- A value gives way to one that an operator takes alike. -/
theorem Plan.corresponds_numbers {s : Schema} {operators : OperatorTable Operator} {root : Entity}
    {f : String} {c : Column} (hids : s.Identifiers) (hoperators : operators.HasBuiltIn)
    (hroot : root ∈ s.entities) (hc : root.column? f = some c) (htype : c.type = .integer)
    (h : NumberFilter ending ns v keeps) (hns : ∀ n ∈ ns, inCellRange n = true) {d : Descriptor}
    (hd : d.DistinctAliases root)
    (hmem : (f ++ ending, QueryString.filterValue (ns.map toString)) ∈ d.parameters.entries) :
    Corresponds Plan.Replaces (build s operators root (d.withFilter (f ++ ending) v)).plan
      (build s operators root d).plan := by
  obtain ⟨o, ho, htakes⟩ := h.takesNumbers hns
  refine corresponds_build hd fun p hp hproot => OrderedMap.forall₂_insert hmem
    (fun e => .refl (fun q => .refl q) _) ?_
  have hread := parameterPredicate_end ho hids hoperators hp (hproot ▸ hroot) (hproot ▸ hc)
  obtain ⟨q, q', hq, hq', hruns, -⟩ := htakes ⟨.entity 0, p.rootAlias, c⟩ htype
  rw [hread, hread, hq, hq']
  exact .ok hruns

end EntityQuery
