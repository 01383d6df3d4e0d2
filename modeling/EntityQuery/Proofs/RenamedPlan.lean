import EntityQuery.Proofs.Renaming
/-!
The plan of a query under other aliases. Each stage of a build does under the new aliases what it does
under the old ones: the plan that comes out is the same, with its aliases renamed.
-/
namespace EntityQuery

/-! ### Parts of a plan -/

section

variable (f : Renaming)

def ColumnRef.renamed (c : ColumnRef) : ColumnRef := { c with aliasName := f c.aliasName }

def Operand.renamed : Operand → Operand
  | value v => value v
  | column c => column (c.renamed f)

mutual

/-- A predicate whose columns stand under other aliases. -/
def Predicate.renamed : Predicate → Predicate
  | constant b => constant b
  | compare op l r => compare op (l.renamed f) (r.renamed f)
  | truth e l b => truth e (l.renamed f) b
  | nullTest n l => nullTest n (l.renamed f)
  | like n style l r => like n style (l.renamed f) (r.renamed f)
  | member n l vs => member n (l.renamed f) vs
  | between l low high => between (l.renamed f) low high
  | all ps => all (Predicate.renamedAll ps)
  | any ps => any (Predicate.renamedAll ps)
  | negation p => negation (Predicate.renamed p)

def Predicate.renamedAll : List Predicate → List Predicate
  | [] => []
  | p :: ps => Predicate.renamed p :: Predicate.renamedAll ps

end

theorem Predicate.renamedAll_eq_map (ps : List Predicate) :
    Predicate.renamedAll f ps = ps.map (Predicate.renamed f) := by
  induction ps with
  | nil => rfl
  | cons p ps ih => rw [Predicate.renamedAll, ih, List.map_cons]

def Occurrence.renamed (o : Occurrence) : Occurrence := { o with aliasName := f o.aliasName }

def JoinCondition.renamed : JoinCondition → JoinCondition
  | absent => absent
  | predicate p => predicate (p.renamed f)
  | unsuitable v => unsuitable v

/-- A join under other aliases; the index that it is keyed by names its alias as well. -/
def JoinClause.renamed (j : JoinClause) : JoinClause :=
  { j with
    aliasName := f j.aliasName
    sourceAlias := f j.sourceAlias
    condition := j.condition.renamed f
    indexBy := j.indexBy.map (renamedHead f) }

def OrderClause.renamed (c : OrderClause) : OrderClause := { c with aliasName := f c.aliasName }

/-- Entries of a sort under other aliases. -/
def renamedSort (f : String → String) (sort : List (String × Direction)) : List (String × Direction) :=
  sort.map fun e => (renamedHead f e.1, e.2)

/-- A plan under other aliases. -/
def Plan.renamed (p : Plan) : Plan :=
  { p with
    names := p.names.renamed f fun _ => Occurrence.renamed f
    joins := p.joins.map (JoinClause.renamed f)
    predicates := p.predicates.map (Predicate.renamed f)
    orderBy := p.orderBy.map (OrderClause.renamed f)
    unresolvedSort := renamedSort f p.unresolvedSort }

theorem Occurrence.column?_renamed (o : Occurrence) (field : String) :
    (o.renamed f).column? field = (o.column? field).map (ColumnRef.renamed f) := by
  unfold column?
  rw [Option.map_map]
  rfl

theorem JoinClause.indexField?_renamed (j : JoinClause) :
    (j.renamed f).indexField? = j.indexField? := by
  unfold indexField? renamed
  rw [Option.map_map]
  refine congrArg (fun g => j.indexBy.map g) (funext fun packed => ?_)
  rw [Function.comp_apply, splitFirstDot?_renamedHead]
  unfold renamedHead
  cases Text.splitFirstDot? packed <;> rfl

theorem Operator.apply_renamed (o : Operator) (c : ColumnRef) (v : Value) :
    o.apply (c.renamed f) v = (o.apply c v).map (Predicate.renamed f) := by
  have hcomparison : ∀ op, comparison op (c.renamed f) v =
      (comparison op c v).map (Predicate.renamed f) := fun op => by
    unfold comparison
    split <;> rfl
  have hpattern : ∀ negated style, pattern negated style (c.renamed f) v =
      (pattern negated style c v).map (Predicate.renamed f) := fun negated style => by
    unfold pattern
    split <;> rfl
  cases o with
  | equal | notEqual | greater | greaterOrEqual | less | lessOrEqual => exact hcomparison _
  | like | notLike | foldedLike | startsWith => exact hpattern _ _
  | isIn | isNotIn | isNull | isNotNull | nullCheck => rfl
  | between =>
    change betweenBounds _ v = (betweenBounds c v).map _
    unfold betweenBounds
    split <;> rfl
  | negatedLike =>
    change (pattern false .whole _ v).map _ = ((pattern false .whole c v).map _).map _
    rw [hpattern]
    unfold pattern
    split <;> rfl

end

/-! ### Stages of a build -/

namespace Plan

variable {s : Schema} {p : Plan} {f : Renaming} {operators : OperatorTable Operator}

theorem find?_names_renamed (f : Renaming) (p : Plan) (a : String) :
    (p.renamed f).names.find? (f a) = (p.names.find? a).map (Occurrence.renamed f) :=
  OrderedMap.find?_renamed f.injective _ _ a

/-- The parts of a relation key under other aliases, if the alias of the root has no dot. -/
theorem splitRelation_renamed (hroot : f p.rootAlias = p.rootAlias) (hdot : '.' ∉ p.rootAlias.toList)
    (key : String) : (p.renamed f).splitRelation (renamedHead f key) =
      (f (p.splitRelation key).1, (p.splitRelation key).2) := by
  have hsame : (p.renamed f).rootAlias = p.rootAlias := rfl
  unfold splitRelation
  rw [splitFirstDot?_renamedHead]
  cases hkey : Text.splitFirstDot? key with
  | some parts => rfl
  | none =>
    have hhead : renamedHead f key = key := by
      unfold renamedHead
      rw [hkey]
    simp only [Option.map_none, hsame, hhead, Text.splitFirstDot?_append hdot, Option.getD_some, hroot]

theorem relationTarget_renamed (hroot : f p.rootAlias = p.rootAlias)
    (hdot : '.' ∉ p.rootAlias.toList) (key : String) :
    ((p.renamed f).relationTarget s (renamedHead f key)).toOption =
      (p.relationTarget s key).toOption := by
  unfold relationTarget
  rw [splitRelation_renamed hroot hdot]
  dsimp only
  rw [find?_names_renamed]
  cases p.names.find? (p.splitRelation key).1 with
  | none => rfl
  | some o =>
    rfl

theorem joinAlias_renamed {key : String} {o : RelationOptions} (hne : joinAlias key o ≠ "")
    (other : String) : joinAlias other (o.renamed f key) = f (joinAlias key o) := by
  have hrenamed : ¬ (f (joinAlias key o)).isEmpty = true := by
    simpa using fun h => hne ((f.eq_empty_iff).mp h)
  exact if_neg hrenamed

/-- The join of an entry under other aliases. -/
theorem joinClause_renamed (hroot : f p.rootAlias = p.rootAlias) (hdot : '.' ∉ p.rootAlias.toList)
    {key : String} {o : RelationOptions} (hne : joinAlias key o ≠ "")
    (halias : '.' ∉ (joinAlias key o).toList) (target : Entity) (fields : List String) :
    (p.renamed f).joinClause (renamedHead f key) (o.renamed f key) target .absent fields =
      (p.joinClause key o target .absent fields).renamed f := by
  unfold joinClause
  rw [joinAlias_renamed hne, splitRelation_renamed hroot hdot]
  unfold JoinClause.renamed RelationOptions.renamed
  dsimp only
  cases o.indexBy with
  | none => rfl
  | some field =>
    by_cases hempty : field = ""
    · simp [hempty, JoinCondition.renamed]
    · simp [hempty, JoinCondition.renamed, renamedHead, Text.splitFirstDot?_append halias]

/-- A relation without a condition adds under other aliases the join that it adds before. -/
theorem addRelation_renamed (hroot : f p.rootAlias = p.rootAlias) (hdot : '.' ∉ p.rootAlias.toList)
    {key : String} {o : RelationOptions} (hnull : o.condition = .null) (hne : joinAlias key o ≠ "")
    (halias : '.' ∉ (joinAlias key o).toList) :
    ((p.renamed f).addRelation s (renamedHead f key) (o.renamed f key)).toOption =
      (p.addRelation s key o).toOption.map (renamed f) := by
  have hcondition : (o.renamed f key).condition = .null := hnull
  have hindex : ∀ target,
      ((p.renamed f).checkJoinIndex (renamedHead f key) (o.renamed f key) target).toOption =
        (p.checkJoinIndex key o target).toOption := fun target => by
    unfold checkJoinIndex RelationOptions.renamed
    cases o.indexBy with
    | none => rfl
    | some field =>
      dsimp only
      split <;> rfl
  have hnames : ∀ target, (p.renamed f).withTarget (f (joinAlias key o)) target =
      (p.withTarget (joinAlias key o) target).renamed f fun _ => Occurrence.renamed f := fun target => by
    unfold withTarget
    rw [OrderedMap.renamed_insert f.injective]
    simp [renamed, Occurrence.renamed]
  unfold addRelation
  simp only [toOption_bind, relationTarget_renamed hroot hdot, hindex, hcondition, hnull,
    joinAlias_renamed hne, hnames, JoinCondition.ofValue]
  have hfields : (o.renamed f key).fields = o.fields := rfl
  have habsent : (Except.ok JoinCondition.absent : Except QueryError JoinCondition).toOption =
      some .absent := rfl
  cases (p.relationTarget s key).toOption with
  | none => rfl
  | some target =>
    simp only [Option.bind_some, hfields, habsent]
    cases (p.checkJoinIndex key o target).toOption with
    | none => rfl
    | some _ =>
      cases (checkedFields target (o.fields.getD [])).toOption with
      | none => rfl
      | some fields =>
        simp only [Option.bind_some, joinClause_renamed hroot hdot hne halias]
        simp [Except.toOption, renamed]

/-- The plan with the joins of entries, if each of them can be added. -/
def addRelations? (s : Schema) (p : Plan) (relations : List (String × RelationOptions)) :
    Option Plan :=
  relations.foldlM (fun p e => (p.addRelation s e.1 e.2).toOption) p

theorem addRelations?_cons (s : Schema) (p : Plan) (e : String × RelationOptions)
    (relations : List (String × RelationOptions)) : p.addRelations? s (e :: relations) =
      (p.addRelation s e.1 e.2).toOption.bind fun q => q.addRelations? s relations :=
  List.foldlM_cons

theorem toOption_withRelations (s : Schema) (p : Plan) (relations : List (String × RelationOptions)) :
    (p.withRelations s relations).toOption = p.addRelations? s relations := by
  induction relations generalizing p with
  | nil => rfl
  | cons e relations ih =>
    rw [addRelations?_cons]
    unfold withRelations addRelations
    cases p.addRelation s e.1 e.2 with
    | error e => rfl
    | ok q => exact ih q

/-- The stages of a build that succeeds. -/
theorem toOption_build (s : Schema) (operators : OperatorTable Operator) (root : Entity)
    (d : Descriptor) : (build s operators root d).plan.toOption =
      (start root d).toOption.bind fun first =>
        (first.addRelations? s d.relations.entries).bind fun joined =>
          (joined.addParameters operators d.parameters.entries).toOption.map fun filtered =>
            filtered.withSort s d.sort.entries := by
  rw [plan_build, toOption_map]
  unfold beforeSort
  simp only [toOption_bind, toOption_withRelations, Option.map_bind, Function.comp_def]

theorem root_addRelation {q : Plan} {key : String} {o : RelationOptions}
    (h : (p.addRelation s key o).toOption = some q) : q.root = p.root := by
  obtain ⟨target, condition, fields, -, -, -, -, rfl⟩ := addRelation_eq_ok (eq_ok_of_toOption h)
  rfl

theorem root_addRelations? {q : Plan} {relations : List (String × RelationOptions)}
    (h : p.addRelations? s relations = some q) : q.root = p.root := by
  induction relations generalizing p with
  | nil =>
    cases h
    rfl
  | cons e relations ih =>
    rw [addRelations?_cons] at h
    obtain ⟨next, hnext, h⟩ := Option.bind_eq_some_iff.mp h
    exact (ih h).trans (root_addRelation hnext)

/-- The source of a relation has no dot in its alias. -/
theorem not_mem_splitRelation (p : Plan) (key : String) : '.' ∉ (p.splitRelation key).1.toList := by
  unfold splitRelation
  cases hkey : Text.splitFirstDot? key with
  | some parts => exact Text.not_mem_of_splitFirstDot? hkey
  | none =>
    cases hroot : Text.splitFirstDot? (p.rootAlias ++ "." ++ key) with
    | some parts => exact Text.not_mem_of_splitFirstDot? hroot
    | none => exact absurd (Text.splitFirstDot?_eq_none hroot) (by simp)

/-- No relation starts at a root whose alias has a dot. -/
theorem addRelation_dotted (hdot : '.' ∈ p.rootAlias.toList)
    (hnames : ∀ a ≠ p.rootAlias, p.names.find? a = none) (key : String) (o : RelationOptions) :
    (p.addRelation s key o).toOption = none := by
  have hsource : p.names.find? (p.splitRelation key).1 = none :=
    hnames _ fun h => p.not_mem_splitRelation key (h ▸ hdot)
  unfold addRelation relationTarget
  simp only [hsource]
  rfl

theorem addRelations?_renamed (hroot : f p.rootAlias = p.rootAlias) (hdot : '.' ∉ p.rootAlias.toList)
    {relations : List (String × RelationOptions)}
    (h : ∀ e ∈ relations, e.2.condition = .null ∧ joinAlias e.1 e.2 ≠ "" ∧
      '.' ∉ (joinAlias e.1 e.2).toList) :
    (p.renamed f).addRelations? s (relations.map fun e => (renamedHead f e.1, e.2.renamed f e.1)) =
      (p.addRelations? s relations).map (renamed f) := by
  induction relations generalizing p with
  | nil => rfl
  | cons e relations ih =>
    obtain ⟨hnull, hne, halias⟩ := h e List.mem_cons_self
    rw [List.map_cons, addRelations?_cons, addRelations?_cons,
      addRelation_renamed hroot hdot hnull hne halias]
    cases hadd : (p.addRelation s e.1 e.2).toOption with
    | none => rfl
    | some q =>
      have hsame : q.rootAlias = p.rootAlias := congrArg Entity.aliasName (root_addRelation hadd)
      exact ih (hsame.symm ▸ hroot) (hsame.symm ▸ hdot) fun e he => h e (List.mem_cons_of_mem _ he)

theorem column_renamed (hroot : f p.rootAlias = p.rootAlias) (path : String) :
    ((p.renamed f).column (renamedPath f path)).toOption =
      (p.column path).toOption.map (ColumnRef.renamed f) := by
  have hsplit : (p.renamed f).splitPath (renamedPath f path) =
      (f (p.splitPath path).1, (p.splitPath path).2) := by
    unfold splitPath
    rw [splitLastDot_renamedPath]
    by_cases hempty : (Text.splitLastDot path).1 = ""
    · simp only [hempty, f.empty]
      exact Prod.ext hroot.symm rfl
    · have hrenamed : ¬ f (Text.splitLastDot path).1 = "" := fun h => hempty (f.eq_empty_iff.mp h)
      simp [hempty, hrenamed]
  unfold column
  rw [hsplit]
  dsimp only
  rw [find?_names_renamed]
  cases p.names.find? (p.splitPath path).1 with
  | none => rfl
  | some o =>
    simp only [Option.map_some, Occurrence.column?_renamed]
    cases o.column? (p.splitPath path).2 <;> rfl

/-- A filter under other aliases. -/
theorem parameterPredicate_renamed (hids : s.Identifiers) (hmem : p.root ∈ s.entities)
    (hroot : f p.rootAlias = p.rootAlias) (key : String) (v : Value) :
    ((p.renamed f).parameterPredicate operators (renamedFilterKey f key) v).toOption =
      (p.parameterPredicate operators key v).toOption.map (Predicate.renamed f) := by
  have hsame : (p.renamed f).root = p.root := rfl
  unfold parameterPredicate
  rw [splitFilterKey?_renamedFilterKey, hsame]
  cases hkey : splitFilterKey? key with
  | none =>
    have hrenamed : renamedFilterKey f key = key := by
      unfold renamedFilterKey
      rw [hkey]
    rw [hrenamed]
    cases hcolumn : (rootOccurrence p.root).column? key with
    | none => rfl
    | some c =>
      have hc : c.renamed f = c := by
        obtain ⟨column, -, rfl⟩ := Option.map_eq_some_iff.mp hcolumn
        exact congrArg (fun a => ColumnRef.mk _ a column) hroot
      dsimp only
      rw [← toOption_map, ← Operator.apply_renamed, hc]
  | some parts =>
    obtain ⟨hparts, -, -⟩ := splitFilterKey?_eq_some hkey
    have hrenamed : renamedFilterKey f key = renamedPath f parts.1 ++ ":" ++ parts.2 := by
      unfold renamedFilterKey
      rw [hkey]
    rw [column?_of_colon hids hmem key (by simp [hparts]),
      column?_of_colon hids hmem (renamedFilterKey f key) (by simp [hrenamed])]
    simp only [Option.map_some, toOption_bind, column_renamed hroot]
    cases (operators.resolve parts.2).toOption with
    | none => rfl
    | some operator =>
      cases (p.column parts.1).toOption with
      | none => rfl
      | some c => simp only [Option.bind_some, Option.map_some, Operator.apply_renamed, toOption_map]

theorem addParameters_renamed (hids : s.Identifiers) (hmem : p.root ∈ s.entities)
    (hroot : f p.rootAlias = p.rootAlias) (parameters : List (String × Value)) :
    ((p.renamed f).addParameters operators
        (parameters.map fun e => (renamedFilterKey f e.1, e.2))).toOption =
      (p.addParameters operators parameters).toOption.map (renamed f) := by
  have hmap : ((parameters.map fun e => (renamedFilterKey f e.1, e.2)).mapM fun e =>
        (p.renamed f).parameterPredicate operators e.1 e.2).toOption =
      (parameters.mapM fun e => p.parameterPredicate operators e.1 e.2).toOption.map
        (List.map (Predicate.renamed f)) := by
    rw [List.mapM_map]
    exact toOption_mapM fun e _ => parameterPredicate_renamed hids hmem hroot e.1 e.2
  unfold addParameters
  simp only [toOption_bind, hmap]
  cases (parameters.mapM fun e => p.parameterPredicate operators e.1 e.2).toOption with
  | none => rfl
  | some predicates => simp [Except.toOption, renamed]

theorem findJoin_renamed (f : Renaming) (p : Plan) (a : String) :
    (p.renamed f).findJoin (f a) = (p.findJoin a).map (JoinClause.renamed f) := by
  unfold findJoin renamed
  rw [List.find?_map]
  refine congrArg (fun test => (p.joins.find? test).map _) (funext fun j => ?_)
  simp [JoinClause.renamed, f.injective.eq_iff]

/-- A sort entry under other aliases. -/
theorem sortClause?_renamed (hroot : f p.rootAlias = p.rootAlias) (name : String)
    (direction : Direction) : (p.renamed f).sortClause? s (renamedHead f name) direction =
      (p.sortClause? s name direction).map (OrderClause.renamed f) := by
  have htarget : ∀ j : JoinClause, (p.renamed f).sortTarget? s (j.renamed f) = p.sortTarget? s j := by
    intro j
    unfold sortTarget?
    rw [show (j.renamed f).sourceAlias = f j.sourceAlias from rfl, find?_names_renamed]
    cases p.names.find? j.sourceAlias <;> rfl
  unfold sortClause?
  rw [splitFirstDot?_renamedHead]
  cases hname : Text.splitFirstDot? name with
  | none =>
    have hrenamed : renamedHead f name = name := by
      unfold renamedHead
      rw [hname]
    have hclause : OrderClause.renamed f ⟨p.rootAlias, name, direction⟩ =
        ⟨p.rootAlias, name, direction⟩ := congrArg (fun a => OrderClause.mk a name direction) hroot
    simp only [Option.map_none, hrenamed, show (p.renamed f).root = p.root from rfl]
    split
    · rw [Option.map_some, hclause]
      rfl
    · rfl
  | some parts =>
    simp only [Option.map_some, findJoin_renamed]
    cases p.findJoin parts.1 with
    | none => rfl
    | some j =>
      simp only [Option.map_some, Option.bind_eq_bind, Option.bind_some, htarget]
      cases p.sortTarget? s j with
      | none => rfl
      | some target =>
        simp only [Option.bind_some]
        split <;> rfl

theorem withSort_renamed (hroot : f p.rootAlias = p.rootAlias) (sort : List (String × Direction)) :
    (p.renamed f).withSort s (renamedSort f sort) = (p.withSort s sort).renamed f := by
  have hclauses : ((renamedSort f sort).filterMap fun e => (p.renamed f).sortClause? s e.1 e.2) =
      (sort.filterMap fun e => p.sortClause? s e.1 e.2).map (OrderClause.renamed f) := by
    unfold renamedSort
    rw [List.filterMap_map, List.map_filterMap]
    exact List.filterMap_congr fun e _ => sortClause?_renamed hroot e.1 e.2
  have hremaining :
      ((renamedSort f sort).filter fun e => ((p.renamed f).sortClause? s e.1 e.2).isNone) =
        renamedSort f (sort.filter fun e => (p.sortClause? s e.1 e.2).isNone) := by
    unfold renamedSort
    rw [List.filter_map]
    refine congrArg _ (List.filter_congr fun e _ => ?_)
    simp [sortClause?_renamed hroot]
  unfold withSort resolveSort
  dsimp only
  rw [hclauses, hremaining]
  simp [renamed]

theorem find?_start {root : Entity} {d : Descriptor} {first : Plan} (h : start root d = .ok first)
    {a : String} (ha : a ≠ root.aliasName) : first.names.find? a = none := by
  obtain rfl := start_eq_ok h
  change (OrderedMap.empty.insert root.aliasName _).find? a = none
  rw [OrderedMap.find?_insert_of_ne _ _ ha]
  rfl

theorem rootOccurrence_renamed {root : Entity} (hroot : f root.aliasName = root.aliasName) :
    (rootOccurrence root).renamed f = rootOccurrence root :=
  congrArg (fun a => Occurrence.mk 0 a root) hroot

/-- A renaming that keeps the alias of the root keeps the plan that a build starts from. -/
theorem start_renamed {root : Entity} (hroot : f root.aliasName = root.aliasName) {d : Descriptor}
    {first : Plan} (h : start root d = .ok first) : first.renamed f = first := by
  obtain rfl := start_eq_ok h
  have hnames : (ofRoot root).names.renamed f (fun _ => Occurrence.renamed f) =
      (ofRoot root).names := by
    unfold ofRoot
    rw [OrderedMap.renamed_insert f.injective, hroot, rootOccurrence_renamed hroot]
    rfl
  unfold renamed
  rw [hnames]
  rfl

/-- From the start of a build, relations are added under other aliases as before. -/
theorem addRelations?_start {root : Entity} (hroot : f root.aliasName = root.aliasName) {d : Descriptor}
    {first : Plan} (hstart : start root d = .ok first) {relations : List (String × RelationOptions)}
    (h : ∀ e ∈ relations, e.2.condition = .null ∧ joinAlias e.1 e.2 ≠ "" ∧
      '.' ∉ (joinAlias e.1 e.2).toList) :
    first.addRelations? s (relations.map fun e => (renamedHead f e.1, e.2.renamed f e.1)) =
      (first.addRelations? s relations).map (renamed f) := by
  have hsame := start_renamed hroot hstart
  have halias : first.rootAlias = root.aliasName :=
    congrArg (fun p => p.root.aliasName) (start_eq_ok hstart)
  by_cases hdot : '.' ∈ root.aliasName.toList
  · -- without a dotless root there are either no relations, or the first of them fails
    cases relations with
    | nil => exact congrArg some hsame.symm
    | cons e relations =>
      have hfails := addRelation_dotted (s := s) (p := first) (halias.symm ▸ hdot)
        fun a ha => find?_start hstart (halias ▸ ha)
      rw [List.map_cons, addRelations?_cons, addRelations?_cons, hfails, hfails]
      rfl
  · conv_lhs => rw [← hsame]
    exact addRelations?_renamed (halias.symm ▸ hroot) (halias.symm ▸ hdot) h

/-- A query without join conditions under other aliases builds the plan of the query under these
aliases. -/
theorem build_renamed (hids : s.Identifiers) {root : Entity} (hmem : root ∈ s.entities)
    (hroot : f root.aliasName = root.aliasName) {d : Descriptor}
    (hnull : ∀ e ∈ d.relations.entries, e.2.condition = .null)
    (haliases : ∀ a ∈ d.joinAliases, a ≠ "" ∧ '.' ∉ a.toList) :
    (build s operators root (d.renamed f)).plan.toOption =
      (build s operators root d).plan.toOption.map (renamed f) := by
  have hrelations : (d.renamed f).relations.entries =
      d.relations.entries.map fun e => (renamedHead f e.1, e.2.renamed f e.1) :=
    OrderedMap.entries_renamed (renamedHead_injective f) _ _
  have hparameters : (d.renamed f).parameters.entries =
      d.parameters.entries.map fun e => (renamedFilterKey f e.1, e.2) :=
    OrderedMap.entries_renamed (renamedFilterKey_injective f) _ _
  have hsort : (d.renamed f).sort.entries = renamedSort f d.sort.entries :=
    OrderedMap.entries_renamed (renamedHead_injective f) _ _
  rw [toOption_build, toOption_build, hrelations, hparameters, hsort]
  change (start root d).toOption.bind _ = _
  cases hstart : start root d with
  | error e => rfl
  | ok first =>
    have hjoined := addRelations?_start (s := s) hroot hstart fun e he =>
      ⟨hnull e he, haliases _ (List.mem_map_of_mem he)⟩
    change (first.addRelations? s _).bind _ = ((first.addRelations? s _).bind _).map _
    rw [hjoined]
    cases hadded : first.addRelations? s d.relations.entries with
    | none => rfl
    | some joined =>
      have hjroot : joined.root = root :=
        (root_addRelations? hadded).trans (congrArg Plan.root (start_eq_ok hstart))
      have hjalias : f joined.rootAlias = joined.rootAlias := by
        unfold rootAlias
        rw [hjroot]
        exact hroot
      simp only [Option.map_some, Option.bind_some]
      rw [addParameters_renamed hids (hjroot.symm ▸ hmem) hjalias]
      cases hfiltered : (joined.addParameters operators d.parameters.entries).toOption with
      | none => rfl
      | some filtered =>
        obtain ⟨predicates, -, rfl⟩ := addParameters_eq_ok (eq_ok_of_toOption hfiltered)
        exact congrArg some (withSort_renamed
          (p := { joined with predicates := joined.predicates ++ predicates }) hjalias _)

end Plan
end EntityQuery
