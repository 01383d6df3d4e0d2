import EntityQuery.Proofs.BareJoins
import EntityQuery.Proofs.Bounds
import EntityQuery.Proofs.Refusals
import EntityQuery.Proofs.Scope
import EntityQuery.Proofs.TreeEdges
/-!
When a statement runs: its parameters have to fit and to be storable, and its names have to resolve. Over
bare joins names resolve where they differ; only filters and bounds are left that can keep the statement
from running.
-/
namespace EntityQuery

theorem inCellRange_of_storedCell {n : Int} {c : Cell} (h : storedCell (.integer n) = .ok c) :
    inCellRange n = true := by
  by_contra hn
  rw [storedCell, if_neg hn] at h
  cases h

namespace Parameter

theorem Binds.fits {p : Parameter} (h : p.Binds) : p.fits = true := by
  obtain ⟨c, hc⟩ := h
  unfold cell at hc
  unfold Parameter.fits
  cases hv : p.type.fit p.value with
  | some v => rfl
  | none =>
    rw [hv] at hc
    cases hc

theorem cell_error {p : Parameter} {e : QueryError} (h : p.cell = .error e) :
    e.kind.isRefusal = false := by
  unfold cell at h
  split at h
  · unfold storedCell at h
    split at h
    · cases h
    · cases h
    · split at h
      · cases h
      · cases h
        rfl
    · cases h
    · cases h
    · cases h
    · cases h
    · cases h
      rfl
  · cases h
    rfl

/-- A bound can be stored exactly if it is in the range of the cells. -/
theorem binds_ofBound (n : Nat) : (ofBound n).Binds ↔ inCellRange n = true := by
  constructor
  · rintro ⟨c, hc⟩
    exact inCellRange_of_storedCell hc
  · exact fun h => ⟨_, cell_ofBound h⟩

end Parameter

namespace Select

variable {s : Schema} {q : Select}

theorem checkStorable_eq_ok_iff : q.checkStorable = .ok () ↔ ∀ p ∈ q.parameters, p.Binds := by
  unfold checkStorable
  rw [forM_eq_ok_iff]
  refine forall₂_congr fun p _ => ?_
  unfold Parameter.Binds
  cases p.cell <;> simp [Except.map]

/-- A selection runs exactly if its parameters can be bound and its names resolve. -/
theorem check_eq_ok_iff :
    q.check s = .ok () ↔ (∀ p ∈ q.parameters, p.Binds) ∧ q.resolves s = true := by
  constructor
  · intro h
    refine ⟨?_, resolves_of_check h⟩
    unfold check at h
    split at h
    · cases h
    · split at h
      · cases h
      · exact checkStorable_eq_ok_iff.mp h
  · rintro ⟨hbinds, hresolves⟩
    have hfits : q.parameters.all Parameter.fits = true :=
      List.all_eq_true.mpr fun p hp => (hbinds p hp).fits
    unfold check
    rw [hfits, hresolves]
    exact checkStorable_eq_ok_iff.mpr hbinds

/-- What keeps a selection from being run is not told to the caller. -/
theorem check_error {e : QueryError} (h : q.check s = .error e) : e.kind.isRefusal = false := by
  unfold check at h
  split at h
  · cases h
    rfl
  · split at h
    · cases h
      rfl
    · obtain ⟨p, -, hp⟩ := error_of_forM h
      cases hc : p.cell with
      | ok c =>
        rw [hc] at hp
        cases hp
      | error e' =>
        rw [hc] at hp
        cases hp
        exact Parameter.cell_error hc

end Select

namespace Schema

/-- Where the names in reach differ, a column of one of the tables resolves. -/
theorem resolves_of_mem {s : Schema} {scope : NameScope}
    (hscope : (scope.map fun t => Text.lowerAscii t.1).Nodup) {c : ColumnRef} {table : String}
    (hmem : (c.aliasName, table) ∈ scope) (hcolumn : s.tableHas table c.column.name = true) :
    s.resolves scope c = true := by
  have hone : scope.countP (fun t => Text.lowerAscii t.1 == Text.lowerAscii c.aliasName &&
      s.tableHas t.2 c.column.name) = 1 := by
    induction scope with
    | nil => cases hmem
    | cons t scope ih =>
      rw [List.map_cons, List.nodup_cons] at hscope
      rw [List.countP_cons]
      rcases List.mem_cons.mp hmem with rfl | hmem
      · have hrest : scope.countP (fun t => Text.lowerAscii t.1 == Text.lowerAscii c.aliasName &&
            s.tableHas t.2 c.column.name) = 0 := by
          rw [List.countP_eq_zero]
          intro t ht hsame
          simp only [Bool.and_eq_true, beq_iff_eq] at hsame
          exact hscope.1 (hsame.1 ▸ List.mem_map.mpr ⟨t, ht, rfl⟩)
        rw [hrest, if_pos (by simp [hcolumn])]
      · have hfirst : ¬ Text.lowerAscii t.1 = Text.lowerAscii c.aliasName := fun he =>
          hscope.1 (he ▸ List.mem_map.mpr ⟨_, hmem, rfl⟩)
        rw [ih hscope.2 hmem, if_neg (by simp [hfirst])]
  unfold resolves
  rw [hone]
  rfl

end Schema

/-- Whether the tables of a link have the columns that it names. -/
def Link.stored (s : Schema) (source target : Entity) : Link → Bool
  | .owns key foreign => s.tableHas source.table key && s.tableHas target.table foreign
  | .refers foreign key => s.tableHas target.table key && s.tableHas source.table foreign
  | .through table sourceKey linkSource targetKey linkTarget =>
    s.tableHas source.table sourceKey && s.tableHas table linkSource &&
      s.tableHas target.table targetKey && s.tableHas table linkTarget

/-- The tables have the columns that links name. -/
def Schema.LinksStored (s : Schema) : Prop :=
  ∀ e ∈ s.entities, ∀ r ∈ e.relationships, ∀ t ∈ s.entity? r.target, r.link.stored s e t = true

instance (s : Schema) : Decidable s.LinksStored :=
  inferInstanceAs (Decidable (∀ e ∈ s.entities, ∀ r ∈ e.relationships, ∀ t ∈ s.entity? r.target, _))

namespace Predicate

theorem mem_parametersOf {ps : List Predicate} {x : Parameter} :
    x ∈ parametersOf ps ↔ ∃ p ∈ ps, x ∈ p.parameters := by
  induction ps with
  | nil => simp [parametersOf]
  | cons p ps ih => simp [parametersOf, ih]

theorem mem_columnsOf {ps : List Predicate} {c : ColumnRef} :
    c ∈ columnsOf ps ↔ ∃ p ∈ ps, c ∈ p.columns := by
  induction ps with
  | nil => simp [columnsOf]
  | cons p ps ih => simp [columnsOf, ih]

end Predicate

namespace LoadTree

mutual

/-- The columns that a row brings are columns of the occurrences in the load tree. -/
theorem names_columns {t : LoadTree} {c : ColumnRef} (hc : c ∈ t.columns) :
    ∃ o, t.Occurs o ∧ o.Names c := by
  obtain ⟨o, fields, cs⟩ := t
  rw [columns, List.mem_append] at hc
  rcases hc with hc | hc
  · obtain ⟨e, he, hnames⟩ := names_columnsBelow (o := o) hc
    exact ⟨e.target, .inr ⟨e, he, rfl⟩, hnames⟩
  · obtain ⟨column, hcolumn, rfl⟩ := List.mem_map.mp hc
    exact ⟨o, .inl rfl, column, (List.mem_filter.mp hcolumn).1, rfl⟩

theorem names_columnsBelow {o : Occurrence} {cs : List (Relationship × LoadTree)} {c : ColumnRef}
    (hc : c ∈ columnsBelow cs) : ∃ e ∈ edgesBelow o cs, e.target.Names c := by
  cases cs with
  | nil => cases hc
  | cons child rest =>
    obtain ⟨r, t⟩ := child
    rw [columnsBelow, List.mem_append] at hc
    rcases hc with hc | hc
    · obtain ⟨i, rfl | ⟨e, he, rfl⟩, hnames⟩ := names_columns hc
      · exact ⟨_, mem_edgesBelow_cons.mpr (.inl rfl), hnames⟩
      · exact ⟨e, mem_edgesBelow_cons.mpr (.inr (.inl he)), hnames⟩
    · obtain ⟨e, he, hnames⟩ := names_columnsBelow (o := o) hc
      exact ⟨e, mem_edgesBelow_cons.mpr (.inr (.inr he)), hnames⟩

end

end LoadTree

namespace Plan

variable {s : Schema} {p : Plan} {js : List ResolvedJoin}

/-- The aliases of a plan differ, and so do all names in its statements, where letters match in any
case. -/
structure NamesApart (p : Plan) : Prop where
  aliases : p.aliasNames.Nodup
  scope : ∀ js, p.resolveJoins = .ok js → ((p.scopeOf js).map fun t => Text.lowerAscii t.1).Nodup

theorem namesApart_iff {p : Plan} : p.NamesApart ↔ p.aliasNames.Nodup ∧
    ∀ js ∈ p.resolveJoins.toOption, ((p.scopeOf js).map fun t => Text.lowerAscii t.1).Nodup := by
  constructor
  · refine fun h => ⟨h.aliases, fun js hjs => h.scope js ?_⟩
    cases hresolve : p.resolveJoins with
    | error e =>
      rw [hresolve] at hjs
      cases hjs
    | ok js' =>
      rw [hresolve] at hjs
      cases hjs
      rfl
  · refine fun h => ⟨h.1, fun js hjs => h.2 js ?_⟩
    rw [hjs]
    rfl

instance (p : Plan) : Decidable p.NamesApart := decidable_of_iff' _ namesApart_iff

theorem columns_equality (l r : ColumnRef) : (equality l r).columns = [l, r] := rfl

theorem parameters_equality (l r : ColumnRef) : (equality l r).parameters = [] := rfl

theorem resolves_columnNamed {scope : NameScope} {o : Occurrence} {name : String}
    (hscope : (scope.map fun t => Text.lowerAscii t.1).Nodup)
    (ho : (o.aliasName, o.entity.table) ∈ scope) (h : s.tableHas o.entity.table name = true) :
    s.resolves scope (o.columnNamed name) = true :=
  Schema.resolves_of_mem hscope (c := o.columnNamed name) ho
    (by simpa [Occurrence.columnNamed, Entity.columnNamed_name] using h)

/-- The names in the link of a join resolve where the names in reach differ. -/
theorem resolves_linked {scope : NameScope} (hscope : (scope.map fun t => Text.lowerAscii t.1).Nodup)
    {j : ResolvedJoin} {n : Nat} (hlinked : j.predicate = .linked none)
    (hnames : (j.names n).Sublist scope)
    (hsource : (j.source.aliasName, j.source.entity.table) ∈ scope)
    (hstored : j.relationship.link.stored s j.source.entity j.target.entity = true) :
    j.resolves s scope n = true := by
  have htarget : (j.target.aliasName, j.target.entity.table) ∈ j.names n := by
    simp [ResolvedJoin.names]
  have hown : ((j.names n).map fun t => Text.lowerAscii t.1).Nodup := (hnames.map _).nodup hscope
  unfold ResolvedJoin.resolves
  rw [hlinked]
  cases hlink : j.relationship.link with
  | owns key foreign =>
    rw [hlink] at hstored
    simp only [Link.stored, Bool.and_eq_true] at hstored
    simp only [linkPredicate, hlink, narrowed, columns_equality, List.all_cons, List.all_nil,
      resolves_columnNamed hscope hsource hstored.1,
      resolves_columnNamed hscope (hnames.subset htarget) hstored.2, Bool.and_self]
  | refers foreign key =>
    rw [hlink] at hstored
    simp only [Link.stored, Bool.and_eq_true] at hstored
    simp only [linkPredicate, hlink, narrowed, columns_equality, List.all_cons, List.all_nil,
      resolves_columnNamed hscope hsource hstored.2,
      resolves_columnNamed hscope (hnames.subset htarget) hstored.1, Bool.and_self]
  | through table sourceKey linkSource targetKey linkTarget =>
    rw [hlink] at hstored
    simp only [Link.stored, Bool.and_eq_true] at hstored
    obtain ⟨⟨⟨hsourceKey, hlinkSource⟩, htargetKey⟩, hlinkTarget⟩ := hstored
    have hlinkName : (table ++ "_" ++ toString n, table) ∈ j.names n := by
      simp [ResolvedJoin.names, ResolvedJoin.linkTable?, hlinked, hlink]
    have hlinkColumn : ∀ {scope : NameScope}, (scope.map fun t => Text.lowerAscii t.1).Nodup →
        (table ++ "_" ++ toString n, table) ∈ scope → ∀ name, s.tableHas table name = true →
          s.resolves scope ⟨.link j.target.position, table ++ "_" ++ toString n,
            { field := name, name := name, type := .integer }⟩ = true :=
      fun hnodup hmem name hhas => Schema.resolves_of_mem hnodup hmem hhas
    simp only [linkPredicate, hlink, narrowed, columns_equality, List.all_cons, List.all_nil,
      resolves_columnNamed hscope hsource hsourceKey,
      hlinkColumn hscope (hnames.subset hlinkName) _ hlinkSource]
    -- an outer join reaches the names of its own two tables only
    cases j.outer with
    | true =>
      simp only [if_true, resolves_columnNamed hown htarget htargetKey,
        hlinkColumn hown hlinkName _ hlinkTarget, Bool.and_self]
    | false =>
      simp only [Bool.false_eq_true, if_false, resolves_columnNamed hscope (hnames.subset htarget) htargetKey,
        hlinkColumn hscope (hnames.subset hlinkName) _ hlinkTarget, Bool.and_self]

theorem resolvesFrom_linked {scope : NameScope}
    (hscope : (scope.map fun t => Text.lowerAscii t.1).Nodup) {used : List String}
    (hnames : (namesFrom used js).Sublist scope)
    (hjoins : ∀ j ∈ js, j.predicate = .linked none ∧
      (j.source.aliasName, j.source.entity.table) ∈ scope ∧
      j.relationship.link.stored s j.source.entity j.target.entity = true) :
    resolvesFrom s scope used js = true := by
  induction js generalizing used with
  | nil => rfl
  | cons j js ih =>
    obtain ⟨hlinked, hsource, hstored⟩ := hjoins j List.mem_cons_self
    rw [namesFrom] at hnames
    rw [resolvesFrom, resolves_linked hscope hlinked
      ((List.sublist_append_left _ _).trans hnames) hsource hstored,
      ih ((List.sublist_append_right _ _).trans hnames)
        fun j hj => hjoins j (List.mem_cons_of_mem _ hj)]
    rfl

theorem target_mem_namesFrom {used : List String} {j : ResolvedJoin} (hj : j ∈ js) :
    (j.target.aliasName, j.target.entity.table) ∈ namesFrom used js := by
  induction js generalizing used with
  | nil => cases hj
  | cons i js ih =>
    rw [namesFrom, List.mem_append]
    rcases List.mem_cons.mp hj with rfl | hj
    · exact .inl (by simp [ResolvedJoin.names])
    · exact .inr (ih hj)

/-- The occurrences of a plan are in reach under their aliases. -/
theorem mem_scopeOf (hst : p.Staged s 0 js) {k : Nat} (hk : k ≤ js.length) {o : Occurrence}
    (ho : p.occurrence? k = some o) : (o.aliasName, o.entity.table) ∈ p.scopeOf js := by
  cases k with
  | zero =>
    cases ho
    exact List.mem_cons_self
  | succ k =>
    obtain ⟨j, hj, htarget⟩ := exists_join hst (Nat.succ_pos k) (by omega)
    cases htarget.symm.trans ho
    exact List.mem_cons_of_mem _ (target_mem_namesFrom hj)

theorem entity_of_staged (hs : s.WellFormed) (hroot : p.root ∈ s.entities) (hst : p.Staged s 0 js)
    {k : Nat} (hk : k ≤ js.length) {o : Occurrence} (ho : p.occurrence? k = some o) :
    o.entity ∈ s.entities := by
  cases k with
  | zero =>
    cases ho
    exact hroot
  | succ k =>
    obtain ⟨j, hj, htarget⟩ := exists_join hst (Nat.succ_pos k) (by omega)
    cases htarget.symm.trans ho
    exact (fitting_of_root hs hroot hst j hj).target

/-- A column of an occurrence resolves where the names of the statement differ. -/
theorem resolves_names (hs : s.WellFormed) (hroot : p.root ∈ s.entities) (hst : p.Staged s 0 js)
    (hscope : ((p.scopeOf js).map fun t => Text.lowerAscii t.1).Nodup) {k : Nat}
    (hk : k ≤ js.length) {o : Occurrence} (ho : p.occurrence? k = some o) {c : ColumnRef}
    (hc : o.Names c) : s.resolves (p.scopeOf js) c = true := by
  obtain ⟨column, hcolumn, rfl⟩ := hc
  exact Schema.resolves_of_mem hscope (mem_scopeOf hst hk ho)
    (hs.tableHas (entity_of_staged hs hroot hst hk ho) hcolumn)

theorem names_column (hp : p.Layout s) {path : String} {c : ColumnRef} (h : p.column path = .ok c) :
    ∃ k o, p.occurrence? k = some o ∧ o.Names c := by
  unfold column at h
  dsimp only at h
  split at h
  · cases h
  · rename_i o ho
    split at h
    · cases h
    · rename_i column hcolumn
      cases h
      obtain ⟨k, hk, -⟩ := hp.named _ o ho
      exact ⟨k, o, hk, o.names_column? hcolumn⟩

theorem names_parameterPredicate (hp : p.Layout s) {operators : OperatorTable Operator} {key : String}
    {v : Value} {q : Predicate} (h : p.parameterPredicate operators key v = .ok q) :
    ∀ c ∈ q.columns, ∃ k o, p.occurrence? k = some o ∧ o.Names c := by
  unfold parameterPredicate at h
  split at h
  · rename_i column hcolumn
    intro c hc
    rw [Operator.columns_apply h, List.mem_singleton] at hc
    exact ⟨0, _, rfl, hc ▸ Occurrence.names_column? hcolumn⟩
  · split at h
    · cases h
    · obtain ⟨o, -, h⟩ := ok_of_bind h
      obtain ⟨column, hcolumn, h⟩ := ok_of_bind h
      intro c hc
      rw [Operator.columns_apply h, List.mem_singleton] at hc
      exact hc ▸ names_column hp hcolumn

/-- The columns of the filters of a built plan are columns of its occurrences. -/
theorem names_predicates {operators : OperatorTable Operator} {root : Entity} {d : Descriptor}
    (hd : d.DistinctAliases root) (h : (build s operators root d).plan = .ok p) :
    ∀ q ∈ p.predicates, ∀ c ∈ q.columns, ∃ k o, p.occurrence? k = some o ∧ o.Names c := by
  have hlayout := layout_build hd h
  obtain ⟨first, joined, filtered, hstart, hjoined, hfiltered, rfl⟩ := build_eq_ok h
  obtain ⟨predicates, hpredicates, rfl⟩ := addParameters_eq_ok hfiltered
  have hnone := (frame_joined hstart hjoined).2.1
  intro q hq
  have hmem : q ∈ joined.predicates ++ predicates := hq
  rw [hnone, List.nil_append] at hmem
  obtain ⟨⟨key, v⟩, -, hparameter⟩ := mem_of_mapM hpredicates hmem
  exact names_parameterPredicate hlayout hparameter

theorem parameters_continued {left : Source} {j : ResolvedJoin} {n : Nat}
    (hlinked : j.predicate = .linked none) : (continued left j n).parameters = left.parameters := by
  unfold continued linkPredicate
  rw [hlinked]
  cases j.relationship.link with
  | owns key foreign | refers foreign key =>
    simp [Source.parameters, Occurrence.source, narrowed, parameters_equality]
  | through table sourceKey linkSource targetKey linkTarget =>
    cases j.outer <;> simp [Source.parameters, Occurrence.source, narrowed, parameters_equality]

/-- Joins without conditions bring no parameters. -/
theorem parameters_chain {left : Source} {used : List String}
    (hlinked : ∀ j ∈ js, j.predicate = .linked none) :
    (chain left used js).parameters = left.parameters := by
  induction js generalizing left used with
  | nil => rfl
  | cons j js ih =>
    rw [chain, ih fun j hj => hlinked j (List.mem_cons_of_mem _ hj),
      parameters_continued (hlinked j List.mem_cons_self)]

theorem binds_conditions_iff (p : Plan) :
    (∀ x ∈ Predicate.parametersOf p.conditions, x.Binds) ↔ ∀ q ∈ p.predicates, q.Binds := by
  have hkind : ∀ q ∈ p.conditions, q ∈ p.predicates ∨ q.Binds := fun q hq =>
    (mem_conditions hq).imp_right fun ⟨f, _, hf⟩ => hf ▸ Parameter.binds_several _ [f.kind]
  constructor
  · intro h q hq x hx
    exact h x (Predicate.mem_parametersOf.mpr ⟨q, List.mem_append_left _ hq, hx⟩)
  · intro h x hx
    obtain ⟨q, hq, hx⟩ := Predicate.mem_parametersOf.mp hx
    rcases hkind q hq with hq | hbinds
    · exact h q hq x hx
    · exact hbinds x hx

theorem binds_bounds_iff (limit offset : Option Nat) :
    (∀ x ∈ (limit.toList ++ offset.toList).map Parameter.ofBound, x.Binds) ↔
      Storable limit ∧ Storable offset := by
  have hone : ∀ bound : Option Nat,
      (∀ x ∈ bound.toList.map Parameter.ofBound, x.Binds) ↔ Storable bound := fun bound => by
    unfold Storable
    cases bound <;> simp [Parameter.binds_ofBound]
  simp only [List.map_append, List.forall_mem_append, hone]

theorem names_columnNamed {o : Occurrence} {name : String}
    (h : (o.entity.columnNamed name).type = .text) : o.Names (o.columnNamed name) := by
  refine ⟨o.entity.columnNamed name, ?_, rfl⟩
  unfold Entity.columnNamed at h ⊢
  cases hfind : o.entity.columns.find? (·.name == name) with
  | some c => exact List.mem_of_find?_eq_some hfind
  | none =>
    rw [hfind] at h
    cases h

/-- The columns of the conditions of a built plan are columns of its occurrences. -/
theorem names_conditions (hs : s.WellFormed) (hroot : p.root ∈ s.entities)
    (hpredicates : ∀ q ∈ p.predicates, ∀ c ∈ q.columns, ∃ k o, p.occurrence? k = some o ∧ o.Names c) :
    ∀ c ∈ Predicate.columnsOf p.conditions, ∃ k o, p.occurrence? k = some o ∧ o.Names c := by
  intro c hc
  obtain ⟨q, hq, hc⟩ := Predicate.mem_columnsOf.mp hc
  rcases mem_conditions hq with hq | ⟨f, hf, rfl⟩
  · exact hpredicates q hq c hc
  · rw [List.mem_singleton.mp hc]
    exact ⟨0, _, rfl, names_columnNamed (hs.kind_text p.root hroot f hf)⟩

/-- The columns that the statement of entities selects are columns of its occurrences. -/
theorem names_loadTree (hst : p.Staged s 0 js) :
    ∀ c ∈ (p.loadTree js).columns, ∃ k o, p.occurrence? k = some o ∧ o.Names c := by
  intro c hc
  obtain ⟨o, rfl | ⟨e, he, rfl⟩, hnames⟩ := LoadTree.names_columns hc
  · exact ⟨0, _, rfl, occurrence_loadTree p js ▸ hnames⟩
  · obtain ⟨j, hj, rfl⟩ := (mem_edges_loadTree hst e).mp he
    obtain ⟨-, ⟨k, -, htarget⟩, -⟩ := occurrences_of_staged hst j hj
    exact ⟨k, _, htarget, hnames⟩

theorem names_orderColumns (hp : p.Layout s) {order : List (ColumnRef × Direction)}
    (h : p.orderColumns = .ok order) :
    ∀ c ∈ order, ∃ k o, p.occurrence? k = some o ∧ o.Names c.1 := by
  intro c hc
  obtain ⟨clause, -, hclause⟩ := mem_of_mapM h hc
  have hnamed : ∃ k, p.occurrence? k =
      some ((p.names.find? clause.aliasName).getD (rootOccurrence p.root)) := by
    cases ho : p.names.find? clause.aliasName with
    | none => exact ⟨0, rfl⟩
    | some o =>
      obtain ⟨k, hk, -⟩ := hp.named _ o ho
      exact ⟨k, hk⟩
  obtain ⟨k, hk⟩ := hnamed
  unfold orderColumn at hclause
  dsimp only at hclause
  split at hclause
  · rename_i column hcolumn
    cases hclause
    exact ⟨k, _, hk, Occurrence.names_column? hcolumn⟩
  · cases hclause

/-- A selection over bare joins under names that differ runs exactly if its filters and its bounds can
be bound. -/
theorem check_bareJoins_iff (hs : s.WellFormed) (hlinks : s.LinksStored) (hroot : p.root ∈ s.entities)
    (hp : p.Layout s) (hbare : p.BareJoins) (hapart : p.NamesApart) (hjoins : p.resolveJoins = .ok js)
    (hpredicates : ∀ q ∈ p.predicates, ∀ c ∈ q.columns, ∃ k o, p.occurrence? k = some o ∧ o.Names c)
    {q : Select} (hsources : q.sources = [p.joined js]) (hconditions : q.conditions = p.conditions)
    (hcolumns : ∀ c ∈ q.columns, ∃ k o, p.occurrence? k = some o ∧ o.Names c)
    (horder : ∀ c ∈ q.order, ∃ k o, p.occurrence? k = some o ∧ o.Names c.1) :
    q.check s = .ok () ↔
      (∀ f ∈ p.predicates, f.Binds) ∧ Storable q.limit ∧ Storable q.offset := by
  obtain ⟨hst, hfollows⟩ := resolveJoins_eq_ok hp hjoins
  have hlinked := linked_of_absent hbare.condition hfollows
  have hscope := hapart.scope js hjoins
  have hresolves : ∀ c, (∃ k o, p.occurrence? k = some o ∧ o.Names c) →
      s.resolves (p.scopeOf js) c = true := by
    rintro c ⟨k, o, ho, hnames⟩
    have hk := lt_of_occurrence?_eq_some ho
    rw [hfollows.length_eq] at hk
    exact resolves_names hs hroot hst hscope hk ho hnames
  have hlinks' : resolvesFrom s (p.scopeOf js) [] js = true := by
    refine resolvesFrom_linked hscope (List.sublist_cons_self _ _) fun j hj => ?_
    obtain ⟨⟨k, hk, hsource⟩, -, htarget⟩ := occurrences_of_staged hst j hj
    have hfit := fitting_of_root hs hroot hst j hj
    exact ⟨hlinked j hj, mem_scopeOf hst (by omega) hsource,
      hlinks _ hfit.source _ hfit.relationship _ htarget⟩
  have hnames : q.resolves s = true := by
    unfold Select.resolves
    simp only [hsources, hconditions, List.flatMap_singleton, scope_joined, List.all_cons, List.all_nil,
      resolves_joined, hlinks', Bool.and_true, Bool.and_eq_true, List.all_eq_true]
    exact ⟨⟨fun c hc => hresolves c (hcolumns c hc),
      fun c hc => hresolves c (names_conditions hs hroot hpredicates c hc)⟩,
      fun c hc => hresolves c.1 (horder c hc)⟩
  have hparameters : q.parameters = Predicate.parametersOf p.conditions ++
      (q.limit.toList ++ q.offset.toList).map Parameter.ofBound := by
    unfold Select.parameters
    rw [hsources, hconditions, List.flatMap_singleton, joined, parameters_chain hlinked]
    rfl
  rw [Select.check_eq_ok_iff, hparameters, List.forall_mem_append, binds_conditions_iff,
    binds_bounds_iff]
  simp only [hnames, and_true]

end Plan
end EntityQuery
