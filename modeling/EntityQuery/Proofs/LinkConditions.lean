import EntityQuery.Proofs.Conditions
import EntityQuery.Proofs.Names
import EntityQuery.Proofs.OuterForm
import EntityQuery.Proofs.RelationStage
import EntityQuery.Proofs.RestatedJoins
/-!
Conditions that state the link of their join. A condition that narrows a join along an equality of two columns
can be given in the place of the link, behind this equality. The plan of the query that does so is the plan
with the predicate of one join replaced.
-/
namespace EntityQuery

/-! ### Predicates -/

namespace Plan

theorem holds_equality_comm (l r : ColumnRef) (row : JoinedRow) :
    (equality l r).holds row = (equality r l).holds row := by
  have hsides : alignedColumns r.column.type l.column.type (row.get r) (row.get l) =
      (alignedColumns l.column.type r.column.type (row.get l) (row.get r)).swap := by
    unfold alignedColumns
    cases decide (l.column.type = .text) <;> cases decide (r.column.type = .text) <;> rfl
  simp only [equality, Predicate.holds, Predicate.eval, Operand.sides, hsides, Prod.fst_swap,
    Prod.snd_swap]
  rw [Cell.compareCells_equal_comm]

theorem equality_comm_restates {known : ColumnRef → Prop} (l r : ColumnRef) :
    (equality l r).Says known (equality r l) where
  holds := holds_equality_comm l r
  parameters _ hx := hx
  columns _ hc := .inl (List.mem_pair.mpr (List.mem_pair.mp hc).symm)

end Plan

namespace Predicate

theorem mem_parameters_conjunction {ps : List Predicate} {x : Parameter} :
    x ∈ (conjunction ps).parameters ↔ ∃ p ∈ ps, x ∈ p.parameters := by
  have hconjuncts : ∀ p : Predicate, x ∈ p.parameters ↔ ∃ q ∈ p.conjuncts, x ∈ q.parameters := by
    intro p
    cases p with
    | all ps => exact mem_parametersOf
    | _ => simp [conjuncts]
  have hflat : (∃ q ∈ ps.flatMap conjuncts, x ∈ q.parameters) ↔ ∃ p ∈ ps, x ∈ p.parameters := by
    constructor
    · rintro ⟨q, hq, hx⟩
      obtain ⟨p, hp, hq⟩ := List.mem_flatMap.mp hq
      exact ⟨p, hp, (hconjuncts p).mpr ⟨q, hq, hx⟩⟩
    · rintro ⟨p, hp, hx⟩
      obtain ⟨q, hq, hx⟩ := (hconjuncts p).mp hx
      exact ⟨q, List.mem_flatMap.mpr ⟨p, hp, hq⟩, hx⟩
  rw [← hflat]
  unfold conjunction
  split
  · rename_i q hq
    simp [hq]
  · exact mem_parametersOf

theorem mem_columns_conjunction {ps : List Predicate} {c : ColumnRef} :
    c ∈ (conjunction ps).columns ↔ ∃ p ∈ ps, c ∈ p.columns := by
  rw [columns_conjunction, mem_columnsOf]

variable {known : ColumnRef → Prop} {p q extra : Predicate}

/-- Conjunctions with one predicate behind others that say the same. -/
theorem Says.conjunction (h : q.Says known p) (extra : Predicate) :
    (conjunction [q, extra]).Says known (conjunction [p, extra]) where
  holds row := by
    rw [Bool.eq_iff_iff, holds_conjunction, holds_conjunction]
    simp [h.holds]
  parameters x hx := by
    simp only [mem_parameters_conjunction, List.mem_pair, exists_eq_or_imp, exists_eq_left] at hx ⊢
    exact hx.imp_left (h.parameters x)
  columns c hc := by
    simp only [mem_columns_conjunction, List.mem_pair, exists_eq_or_imp, exists_eq_left] at hc ⊢
    rcases hc with hc | hc
    · exact (h.columns c hc).imp_left .inl
    · exact .inl (.inr hc)

theorem Says.trans {r : Predicate} (h : q.Says known p) (h' : p.Says known r) : q.Says known r where
  holds row := (h.holds row).trans (h'.holds row)
  parameters x hx := h'.parameters x (h.parameters x hx)
  columns c hc := (h.columns c hc).elim (h'.columns c) .inr

theorem conjunction_true_alike (p : Predicate) :
    (conjunction [p, constant true]).Says known p ∧ p.Says known (conjunction [p, constant true]) := by
  have hholds : ∀ row : JoinedRow, (conjunction [p, constant true]).holds row = p.holds row := by
    intro row
    rw [Bool.eq_iff_iff, holds_conjunction]
    simp [show (constant true).holds row = true from rfl]
  constructor
  · refine ⟨hholds, fun x hx => ?_, fun c hc => .inl ?_⟩
    · simpa [mem_parameters_conjunction, parameters] using hx
    · simpa [mem_columns_conjunction, columns] using hc
  · refine ⟨fun row => (hholds row).symm, fun x hx => ?_, fun c hc => .inl ?_⟩
    · simp [mem_parameters_conjunction, hx]
    · simp [mem_columns_conjunction, hc]

theorem holds_conjunction_false (p : Predicate) (row : JoinedRow) :
    (conjunction [p, constant false]).holds row = false := by
  rw [Bool.eq_false_iff, ne_eq, holds_conjunction]
  simp [show (constant false).holds row = false from rfl]

/-- The predicate of a link and a condition, in the place of the link. A condition that is a truth value
leaves the link or nothing. -/
inductive Conjoined (link : Predicate) : Predicate → Predicate → Prop
  | expression (extra : Predicate) : Conjoined link extra (conjunction [link, extra])
  | always : Conjoined link (constant true) link
  | never : Conjoined link (constant false) (constant false)

theorem Conjoined.restates {on : Predicate} (h : Conjoined q extra on) (hq : q.Says known p) :
    on.Says known (conjunction [p, extra]) := by
  cases h with
  | expression => exact hq.conjunction extra
  | always => exact hq.trans (conjunction_true_alike p).2
  | never =>
    exact ⟨fun row => (holds_conjunction_false p row).symm, fun x hx => absurd hx List.not_mem_nil,
      fun c hc => absurd hc List.not_mem_nil⟩

theorem Conjoined.restated {on : Predicate} (h : Conjoined q extra on) (hp : p.Says known q)
    (hparameters : p.parameters = []) (hnever : on = constant false → ∀ c ∈ p.columns, known c) :
    (conjunction [p, extra]).Says known on := by
  cases h with
  | expression => exact hp.conjunction extra
  | always => exact (conjunction_true_alike p).1.trans hp
  | never =>
    refine ⟨holds_conjunction_false p, fun x hx => ?_, fun c hc => .inr (hnever rfl c ?_)⟩
    · simp [mem_parameters_conjunction, hparameters, parameters] at hx
    · simpa [mem_columns_conjunction, columns] using hc

end Predicate

/-! ### Conditions -/

/-- The columns of its source and of its target that a link without a link table sets equal. -/
def Link.columns? : Link → Option (String × String)
  | .owns key foreign => some (key, foreign)
  | .refers foreign key => some (foreign, key)
  | .through _ _ _ _ _ => none

/-- The link of a join sets a column of its source equal to a column of its target. -/
structure Plan.Links (p : Plan) (j : JoinClause) (near far : Column) : Prop where
  link : ∃ r, p.relationship j = .ok r ∧ r.link.columns? = some (near.name, far.name)
  near : near ∈ (p.source j).entity.columns
  far : far ∈ j.target.columns

/-- The condition that a column of the source and one of the target are equal, from either side. -/
inductive JoinClause.Equates (j : JoinClause) (near far : Column) : Condition Value → Prop
  | fromSource : Equates j near far
      (.compareField .equal (j.sourceAlias ++ "." ++ near.field) (j.aliasName ++ "." ++ far.field))
  | fromTarget : Equates j near far
      (.compareField .equal (j.aliasName ++ "." ++ far.field) (j.sourceAlias ++ "." ++ near.field))

/-- A condition of a relation, and the one that says the link and this condition. -/
inductive Conjoins (link : Condition Value) : Value → Value → Prop
  | expression (c : Condition Value) : Conjoins link (.condition c) (.condition (.all [link, c]))
  | always {v : Value} (h : v = .constant true ∨ v = .boolean true) : Conjoins link v (.condition link)
  | never {v : Value} (h : v = .constant false ∨ v = .boolean false) : Conjoins link v (.constant false)

/-- A query in which the relation under a key has a condition in the place of its link. -/
def Descriptor.replacing (d : Descriptor) (key : String) (o : RelationOptions) (condition : Value) :
    Descriptor :=
  let replaced := { o with condition := condition, conditionType := some .replaces }
  { d with relations := d.relations.insert key replaced }

/-- A join with a predicate in the place of its link, if it stands under a certain alias. -/
def JoinClause.replacedAt (a : String) (on : Predicate) (j : JoinClause) : JoinClause :=
  if j.aliasName = a then { j with condition := .predicate on, conditionType := some .replaces } else j

theorem JoinClause.keeps_replacedAt (a : String) (on : Predicate) :
    JoinClause.Keeps (·.replacedAt a on) := by
  constructor <;> exact fun j => by unfold replacedAt; split <;> rfl

/-- A condition of another type than the replacing one narrows its join. -/
theorem JoinClause.predicate_narrows {j : JoinClause} {extra : Predicate}
    (h : j.condition = .predicate extra ∨
      ∃ b, j.condition = .unsuitable (.boolean b) ∧ extra = .constant b)
    (htype : j.conditionType ≠ some .replaces) : j.predicate = .ok (.linked (some extra)) := by
  unfold JoinClause.predicate
  cases hgiven : j.conditionType with
  | none => rcases h with h | ⟨b, h, rfl⟩ <;> rw [h]
  | some type => cases type with
    | narrows => rcases h with h | ⟨b, h, rfl⟩ <;> rw [h]
    | replaces => exact absurd hgiven htype

namespace Plan

/-- A join that has been followed, with a predicate in the place of its link under a certain alias. -/
def ResolvedJoin.replacedAt (a : String) (on : Predicate) (j : ResolvedJoin) : ResolvedJoin :=
  if j.target.aliasName = a then { j with predicate := .replaced on } else j

theorem ResolvedJoin.keeps_replacedAt (a : String) (on : Predicate) :
    ResolvedJoin.Keeps (·.replacedAt a on) := by
  constructor <;> exact fun j => by unfold replacedAt; split <;> rfl

variable {s : Schema} {p q : Plan} {j : JoinClause} {near far : Column} {link : Condition Value}

/-! ### Building the condition -/

/-- A field of an occurrence, whose name is no path. -/
theorem resolveQualified_append {names : OrderedMap Occurrence} {a : String} {o : Occurrence} {c : Column}
    (ho : names.find? a = some o) (hdot : '.' ∉ c.field.toList) (hc : o.entity.column? c.field = some c) :
    resolveQualified names (a ++ "." ++ c.field) = .ok ⟨.entity o.position, o.aliasName, c⟩ := by
  unfold resolveQualified
  rw [Text.splitLastDot_append hdot]
  simp [ho, Occurrence.column?, hc]

theorem columnNamed_of_mem (hs : s.WellFormed) {e : Entity} (he : e ∈ s.entities) {c : Column}
    (hc : c ∈ e.columns) : e.columnNamed c.name = c := by
  obtain ⟨t, ht, -, hcolumns, -⟩ := hs.stored e he
  obtain ⟨d, hd⟩ : ∃ d, e.columns.find? (·.name == c.name) = some d := by
    rw [← Option.isSome_iff_exists, List.find?_isSome]
    exact ⟨c, hc, by simp⟩
  have hname : d.name = c.name := by simpa using List.find?_some hd
  unfold Entity.columnNamed
  rw [hd]
  exact List.inj_on_of_nodup_map (hs.column_names t ht) (hcolumns d (List.mem_of_find?_eq_some hd))
    (hcolumns c hc) hname

/-- The equality of two columns, written from either side. -/
def IsEquality (l r : ColumnRef) (q : Predicate) : Prop := q = equality l r ∨ q = equality r l

theorem IsEquality.restates {known : ColumnRef → Prop} {l r : ColumnRef} {q e : Predicate}
    (hq : IsEquality l r q) (he : IsEquality l r e) : q.Says known e := by
  rcases hq with rfl | rfl <;> rcases he with rfl | rfl
  · exact .refl
  · exact equality_comm_restates l r
  · exact equality_comm_restates r l
  · exact .refl

theorem IsEquality.parameters {l r : ColumnRef} {q : Predicate} (hq : IsEquality l r q) :
    q.parameters = [] := by
  rcases hq with rfl | rfl <;> rfl

theorem IsEquality.columns {l r : ColumnRef} {q : Predicate} (hq : IsEquality l r q) {c : ColumnRef}
    (hc : c ∈ q.columns) : c = l ∨ c = r := by
  rcases hq with rfl | rfl
  · exact List.mem_pair.mp hc
  · exact (List.mem_pair.mp hc).symm

/-- The condition of a link is built to the equality of its columns. -/
theorem build_equates (hs : s.WellFormed) (hids : s.Identifiers) (hlinks : p.Links j near far)
    (hlink : j.Equates near far link) (hsource : (p.source j).entity ∈ s.entities)
    (htarget : j.target ∈ s.entities) {names : OrderedMap Occurrence} {place : Nat}
    (hnear : names.find? j.sourceAlias = some (p.source j))
    (hfar : names.find? j.aliasName = some (j.occurrence place)) :
    ∃ q, link.build names = .ok q ∧
      IsEquality ((p.source j).columnNamed near.name) ((j.occurrence place).columnNamed far.name) q := by
  have hresolve : ∀ {a : String} {o : Occurrence} {c : Column}, names.find? a = some o →
      o.entity ∈ s.entities → c ∈ o.entity.columns →
        resolveQualified names (a ++ "." ++ c.field) = .ok (o.columnNamed c.name) := by
    intro a o c ho he hc
    rw [resolveQualified_append ho (Text.dotless_of_isIdentifier (hids.column he hc))
        (column?_of_mem hs he hc),
      Occurrence.columnNamed, columnNamed_of_mem hs he hc]
  have hl := hresolve hnear hsource hlinks.near
  have hr := hresolve hfar (o := j.occurrence place) htarget hlinks.far
  cases hlink with
  | fromSource =>
    refine ⟨_, ?_, .inl rfl⟩
    unfold Condition.build
    rw [hl, hr]
    rfl
  | fromTarget =>
    refine ⟨_, ?_, .inr rfl⟩
    unfold Condition.build
    rw [hl, hr]
    rfl

/-- The condition with the link is built to what the predicates of both make. -/
theorem ofValue_conjoins {names : OrderedMap Occurrence} {q : Predicate} (hq : link.build names = .ok q)
    (hcolumns : q.columns ≠ []) {v both : Value} (hboth : Conjoins link v both)
    (hv : JoinCondition.ofValue names v = .ok j.condition) (htype : j.conditionType ≠ some .replaces) :
    ∃ extra on, j.predicate = .ok (.linked (some extra)) ∧
      JoinCondition.ofValue names both = .ok (.predicate on) ∧ q.Conjoined extra on ∧
      (on = .constant false → both = .constant false) := by
  have htruth : ∀ {b}, v = .constant b ∨ v = .boolean b →
      j.predicate = .ok (.linked (some (.constant b))) := fun hb => by
    rcases hb with rfl | rfl
    · exact JoinClause.predicate_narrows (.inl (Except.ok.inj hv).symm) htype
    · exact JoinClause.predicate_narrows (.inr ⟨_, (Except.ok.inj hv).symm, rfl⟩) htype
  cases hboth with
  | expression c =>
    obtain ⟨extra, hextra, hcondition⟩ := ok_of_map hv
    have hnarrows := JoinClause.predicate_narrows (.inl hcondition.symm) htype
    refine ⟨extra, _, hnarrows, ?_, .expression extra, fun hon => ?_⟩
    · simp [JoinCondition.ofValue, Condition.build, Condition.buildParts, hq, hextra, Except.bind,
        Except.map]
    · have hnone := congrArg Predicate.columns hon
      rw [Predicate.columns_conjunction, Predicate.columnsOf] at hnone
      exact absurd (List.append_eq_nil_iff.mp hnone).1 hcolumns
  | always hv' =>
    refine ⟨.constant true, q, htruth hv', ?_, .always, fun hon => absurd ?_ hcolumns⟩
    · simp [JoinCondition.ofValue, hq, Except.map]
    · rw [hon]
      rfl
  | never hv' => exact ⟨.constant false, .constant false, htruth hv', rfl, .never, fun _ => rfl⟩

/-! ### Building the plan -/

theorem insertEntry_append {α : Type} {key : String} {before after : List (String × α)} {v w : α}
    (h : ∀ e ∈ before, e.1 ≠ key) :
    insertEntry key v (before ++ (key, w) :: after) = before ++ (key, v) :: after := by
  induction before with
  | nil => simp [insertEntry]
  | cons e before ih =>
    obtain ⟨he, hrest⟩ := List.forall_mem_cons.mp h
    rw [List.cons_append, insertEntry, if_neg he, ih hrest]
    rfl

/-- A relation between those before it and those after it, all under other aliases. -/
theorem exists_split {d : Descriptor} {root : Entity} (hd : d.DistinctAliases root) {key : String}
    {o : RelationOptions} (hrel : d.relations.find? key = some o) : ∃ before after,
      d.relations.entries = before ++ (key, o) :: after ∧
      (∀ condition, (d.replacing key o condition).relations.entries = before ++
        (key, { o with condition := condition, conditionType := some .replaces }) :: after) ∧
      ∀ e ∈ before ++ after, joinAlias e.1 e.2 ≠ joinAlias key o := by
  obtain ⟨before, after, hsplit, hbefore⟩ := List.lookup_eq_some_iff.mp hrel
  refine ⟨before, after, hsplit, fun condition => ?_, fun e he halias => ?_⟩
  · have hkeys : ∀ e ∈ before, e.1 ≠ key := fun e he hkey => by simpa [hkey] using hbefore e he
    change insertEntry key _ d.relations.entries = _
    rw [hsplit, insertEntry_append hkeys]
  · have haliases : (d.relations.entries.map fun e => joinAlias e.1 e.2).Nodup := (List.nodup_cons.mp hd).2
    rw [hsplit, List.map_append, List.map_cons, List.nodup_middle, ← List.map_append] at haliases
    exact (List.nodup_cons.mp haliases).1 (halias ▸ List.mem_map_of_mem he)

theorem asksChanged_replacedAt {a key : String} (on : Predicate) {o : RelationOptions}
    (h : joinAlias key o ≠ a) : AsksChanged (·.replacedAt a on) key o o where
  joinAlias := rfl
  indexBy := rfl
  fields := rfl
  condition := rfl
  clause _ _ _ _ := (if_neg h).symm

theorem addRelation_replacedAt {key : String} {o : RelationOptions} {on : Predicate} {condition : Value}
    (h : p.addRelation s key o = .ok q)
    (hcondition : JoinCondition.ofValue q.names condition = .ok (.predicate on)) :
    (p.mapJoins (·.replacedAt (joinAlias key o) on)).addRelation s key
        { o with condition := condition, conditionType := some .replaces } =
      .ok (q.mapJoins (·.replacedAt (joinAlias key o) on)) := by
  obtain ⟨target, old, fields, htarget, hindex, -, hfields, rfl⟩ := addRelation_eq_ok h
  have htarget' : (p.mapJoins (·.replacedAt (joinAlias key o) on)).relationTarget s key = .ok target :=
    htarget
  have hindex' : (p.mapJoins (·.replacedAt (joinAlias key o) on)).checkJoinIndex key
      { o with condition := condition, conditionType := some .replaces } target = .ok () := hindex
  have hnames : (p.mapJoins (·.replacedAt (joinAlias key o) on)).withTarget (joinAlias key o) target =
      p.withTarget (joinAlias key o) target := by
    simp [withTarget, mapJoins]
  have halias : joinAlias key { o with condition := condition, conditionType := some .replaces } =
      joinAlias key o := rfl
  have hclause : (p.joinClause key o target old fields).replacedAt (joinAlias key o) on =
      (p.mapJoins (·.replacedAt (joinAlias key o) on)).joinClause key
        { o with condition := condition, conditionType := some .replaces } target (.predicate on) fields :=
    if_pos rfl
  unfold addRelation
  simp only [htarget', hindex', halias, hnames, hcondition, hfields, bind, Except.bind, ← hclause]
  simp [mapJoins]

/-- Relations one of which has a predicate in the place of its link. -/
theorem addRelations_replacedAt {first m n : Plan} {before after : List (String × RelationOptions)}
    {key : String} {o : RelationOptions} {on : Predicate} {condition : Value}
    (hbefore : first.addRelations s before = (m, none)) (h : m.addRelation s key o = .ok n)
    (hafter : n.addRelations s after = (q, none))
    (hothers : ∀ e ∈ before ++ after, joinAlias e.1 e.2 ≠ joinAlias key o)
    (hcondition : JoinCondition.ofValue n.names condition = .ok (.predicate on)) :
    (first.mapJoins (·.replacedAt (joinAlias key o) on)).addRelations s
        (before ++ (key, { o with condition := condition, conditionType := some .replaces }) :: after) =
      (q.mapJoins (·.replacedAt (joinAlias key o) on), none) := by
  rw [addRelations_append]
  refine ⟨m.mapJoins (·.replacedAt (joinAlias key o) on), ?_, ?_⟩
  · exact addRelations_unchanged
      (fun e he => asksChanged_replacedAt on (hothers e (List.mem_append_left _ he))) hbefore
  · exact addRelations_cons_eq_ok.mpr ⟨_, addRelation_replacedAt h hcondition, addRelations_unchanged
      (fun e he => asksChanged_replacedAt on (hothers e (List.mem_append_right _ he))) hafter⟩

/-- The source of a relation that is joined behind others has one of the names before. -/
theorem source_registered {first m n : Plan} {root : Entity} {d : Descriptor}
    {before : List (String × RelationOptions)} {key : String} {o : RelationOptions}
    (hs : start root d = .ok first) (hbefore : first.addRelations s before = (m, none))
    (h : m.addRelation s key o = .ok n) :
    (m.splitRelation key).1 ∈ root.aliasName :: m.joins.map (·.aliasName) := by
  obtain ⟨target, -, -, htarget, -⟩ := addRelation_eq_ok h
  obtain ⟨occurrence, r, hsource, -⟩ := relationTarget_eq_ok htarget
  have hroot := root_start hs
  have hnames := ((relationsAdded_nil hs).run hbefore).names
  by_contra hnone
  rw [hnames.find?_eq_none_iff.mpr (hroot ▸ hnone)] at hsource
  cases hsource

/-- A join has the condition type of its relation, or none. -/
theorem conditionType_joinClause (p : Plan) (key : String) (o : RelationOptions) (target : Entity)
    (condition : JoinCondition) (fields : List String) :
    (p.joinClause key o target condition fields).conditionType = none ∨
      (p.joinClause key o target condition fields).conditionType = o.conditionType := by
  unfold joinClause
  dsimp only
  split
  · exact .inl rfl
  · exact .inr rfl

/-- A query one relation of which has a condition in the place of its link is built to the plan with the
predicate of this condition in its join. -/
theorem build_replacing {operators : OperatorTable Operator} {root : Entity} {d : Descriptor}
    {key : String} {o : RelationOptions} {before after : List (String × RelationOptions)}
    {first m n joined : Plan} {condition : Value} {on : Predicate} (hs : start root d = .ok first)
    (hr : first.addRelations s d.relations.entries = (joined, none))
    (hbefore : first.addRelations s before = (m, none)) (hn : m.addRelation s key o = .ok n)
    (hafter : n.addRelations s after = (joined, none))
    (hothers : ∀ e ∈ before ++ after, joinAlias e.1 e.2 ≠ joinAlias key o)
    (hentries : (d.replacing key o condition).relations.entries = before ++
      (key, { o with condition := condition, conditionType := some .replaces }) :: after)
    (hcondition : JoinCondition.ofValue n.names condition = .ok (.predicate on))
    (h : (build s operators root d).plan = .ok p) :
    (build s operators root (d.replacing key o condition)).plan =
      .ok (p.mapJoins (·.replacedAt (joinAlias key o) on)) := by
  refine build_mapJoins (JoinClause.keeps_replacedAt _ on) rfl (fun first' joined' hs' hr' => ?_) h
  obtain rfl : first = first' := Except.ok.inj (hs.symm.trans hs')
  rw [hr] at hr'
  obtain rfl : joined = joined' := congrArg Prod.fst hr'
  have hfirst : first.mapJoins (·.replacedAt (joinAlias key o) on) = first := by
    rw [start_eq_ok hs]
    rfl
  rw [hentries, ← addRelations_replacedAt hbefore hn hafter hothers hcondition, hfirst]

/-- The stage at which a relation is joined: names that stand for its source and its target as the names of
the plan do, and that its condition is built over. -/
theorem exists_stage {operators : OperatorTable Operator} {root : Entity} {d : Descriptor} {key : String}
    {o : RelationOptions} (hd : d.DistinctAliases root) (hrel : d.relations.find? key = some o)
    (h : (build s operators root d).plan = .ok p) (hj : p.findJoin (joinAlias key o) = some j) :
    ∃ names, names.find? j.sourceAlias = p.names.find? j.sourceAlias ∧
      names.find? j.aliasName = p.names.find? j.aliasName ∧
      JoinCondition.ofValue names o.condition = .ok j.condition ∧
      (j.conditionType = none ∨ j.conditionType = o.conditionType) ∧
      ∀ condition on, JoinCondition.ofValue names condition = .ok (.predicate on) →
        (build s operators root (d.replacing key o condition)).plan =
          .ok (p.mapJoins (·.replacedAt (joinAlias key o) on)) := by
  have hp := layout_build hd h
  obtain ⟨first, joined, filtered, hs, hr, hf, hsorted⟩ := build_eq_ok h
  obtain ⟨before, after, hsplit, hreplacing, hothers⟩ := exists_split hd hrel
  have hr' := hr
  rw [hsplit] at hr'
  obtain ⟨m, hm, hrest⟩ := addRelations_append.mp hr'
  obtain ⟨n, hn, hrest⟩ := addRelations_cons_eq_ok.mp hrest
  obtain ⟨js, hjs, hfind⟩ := names_addRelations hrest
  obtain ⟨target, condition, fields, -, -, hcondition, -, hnext⟩ := addRelation_eq_ok hn
  have hplan : p.joins = joined.joins ∧ p.names = joined.names := by
    obtain ⟨predicates, -, rfl⟩ := addParameters_eq_ok hf
    rw [hsorted]
    exact ⟨rfl, rfl⟩
  have hclauses : p.joins = m.joins ++ m.joinClause key o target condition fields :: js := by
    rw [hplan.1, hjs, hnext]
    simp
  obtain rfl : m.joinClause key o target condition fields = j := by
    have hfound := findJoin_eq_some hp (i := m.joins.length)
      (j := m.joinClause key o target condition fields) (by simp [hclauses])
    exact Option.some.inj (hfound.symm.trans hj)
  -- the source is one of the names before, and no alias is given twice
  have hknown := source_registered hs hm hn
  have hdistinct := hp.distinct
  rw [aliasNames, hclauses, List.map_append, List.map_cons, ← List.cons_append, rootAlias,
    (build_frame h).1, List.nodup_append] at hdistinct
  refine ⟨n.names, ?_, ?_, hnext ▸ hcondition, conditionType_joinClause .., fun value on hon =>
    build_replacing hs hr hm hn hrest hothers (hreplacing value) hon h⟩
  · rw [hplan.2]
    refine (hfind _ fun hlater => ?_).symm
    exact hdistinct.2.2 _ hknown _ (List.mem_cons_of_mem _ hlater) rfl
  · rw [hplan.2]
    exact (hfind _ (List.nodup_cons.mp hdistinct.2.1).1).symm

end Plan
end EntityQuery
