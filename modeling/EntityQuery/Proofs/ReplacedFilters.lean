import EntityQuery.Proofs.FilterSets
import EntityQuery.Proofs.Runnable
/-!
Filters that are replaced. Where a filter gives way to one with a predicate that is true of the same rows,
names the same columns and can be bound as well, a query is answered as before, be it with a result or
with an error.
-/
namespace EntityQuery

/-- Two results fail with the same error, or both give something, and what they give is related. -/
inductive Corresponds {ε α β : Type} (R : α → β → Prop) : Except ε α → Except ε β → Prop
  | error (e : ε) : Corresponds R (.error e) (.error e)
  | ok {a : α} {b : β} (h : R a b) : Corresponds R (.ok a) (.ok b)

namespace Corresponds

variable {ε α β α' β' : Type} {R : α → β → Prop} {S : α' → β' → Prop}

theorem refl {T : α → α → Prop} (hT : ∀ a, T a a) (x : Except ε α) : Corresponds T x x := by
  cases x with
  | error e => exact .error e
  | ok a => exact .ok (hT a)

theorem bind {x : Except ε α} {y : Except ε β} (h : Corresponds R x y) {f : α → Except ε α'}
    {g : β → Except ε β'} (hfg : ∀ a b, R a b → Corresponds S (f a) (g b)) :
    Corresponds S (x >>= f) (y >>= g) := by
  cases h with
  | error e => exact .error e
  | ok h => exact hfg _ _ h

theorem map {x : Except ε α} {y : Except ε β} (h : Corresponds R x y) {f : α → α'} {g : β → β'}
    (hfg : ∀ a b, R a b → S (f a) (g b)) : Corresponds S (x.map f) (y.map g) := by
  cases h with
  | error e => exact .error e
  | ok h => exact .ok (hfg _ _ h)

/-- The stages of two results that share their first stage correspond where it succeeds. -/
theorem bind_same {x : Except ε α} {f : α → Except ε α'} {g : α → Except ε β'}
    (hfg : ∀ a, x = .ok a → Corresponds S (f a) (g a)) : Corresponds S (x >>= f) (x >>= g) := by
  cases x with
  | error e => exact .error e
  | ok a => exact hfg a rfl

theorem mapM {f : α' → Except ε α} {g : β' → Except ε β} {xs : List α'} {ys : List β'}
    (h : List.Forall₂ (fun x y => Corresponds R (f x) (g y)) xs ys) :
    Corresponds (List.Forall₂ R) (xs.mapM f) (ys.mapM g) := by
  induction h with
  | nil => exact .ok .nil
  | cons hxy _ ih =>
    rw [List.mapM_cons, List.mapM_cons]
    exact hxy.bind fun _ _ hab => ih.bind fun _ _ hrest => .ok (.cons hab hrest)

end Corresponds

-- `List.forM_append` speaks of `forM`, behind which `rw` does not see the `List.forM` of a check
theorem forM_append {ε α : Type} {f : α → Except ε Unit} (xs ys : List α) :
    (xs ++ ys).forM f = (xs.forM f >>= fun _ => ys.forM f) := List.forM_append

/-! ### Predicates -/

namespace Predicate

/-- A predicate that cannot be told from another one where a statement runs: it is true of the same rows
and names the same columns, and it has the same parameters, or those of both can be bound. -/
structure RunsAs (q p : Predicate) : Prop where
  holds : ∀ row : JoinedRow, q.holds row = p.holds row
  columns : q.columns = p.columns
  parameters : q.parameters = p.parameters ∨ q.Binds ∧ p.Binds

theorem RunsAs.refl (p : Predicate) : p.RunsAs p := ⟨fun _ => rfl, rfl, .inl rfl⟩

variable {qs ps : List Predicate} (h : List.Forall₂ RunsAs qs ps)

include h

theorem all_holds_runsAs (row : JoinedRow) : qs.all (·.holds row) = ps.all (·.holds row) := by
  induction h with
  | nil => rfl
  | cons hqp _ ih => rw [List.all_cons, List.all_cons, hqp.holds, ih]

theorem columnsOf_runsAs : columnsOf qs = columnsOf ps := by
  induction h with
  | nil => rfl
  | cons hqp _ ih => rw [columnsOf, columnsOf, hqp.columns, ih]

theorem fits_runsAs : (parametersOf qs).all Parameter.fits = (parametersOf ps).all Parameter.fits := by
  induction h with
  | nil => rfl
  | @cons q p qs ps hqp _ ih =>
    rw [parametersOf, parametersOf, List.all_append, List.all_append, ih]
    rcases hqp.parameters with hsame | ⟨hq, hp⟩
    · rw [hsame]
    · have hfits : ∀ {k : Predicate}, k.Binds → k.parameters.all Parameter.fits = true := fun hk =>
        List.all_eq_true.mpr fun x hx => (hk x hx).fits
      rw [hfits hq, hfits hp]

theorem storable_runsAs : ((parametersOf qs).forM fun x => x.cell.map fun _ => ()) =
    (parametersOf ps).forM fun x => x.cell.map fun _ => () := by
  induction h with
  | nil => rfl
  | @cons q p qs ps hqp _ ih =>
    rw [parametersOf, parametersOf, forM_append, forM_append, ih]
    rcases hqp.parameters with hsame | ⟨hq, hp⟩
    · rw [hsame]
    · have hstorable : ∀ {k : Predicate}, k.Binds →
          (k.parameters.forM fun x => x.cell.map fun _ => ()) = .ok () := fun hk =>
        forM_eq_ok_iff.mpr fun x hx => by
          obtain ⟨cell, hcell⟩ := hk x hx
          rw [hcell]
          rfl
      rw [hstorable hq, hstorable hp]

end Predicate

/-- A selection under conditions that run alike runs where it ran, and finds the same rows. -/
theorem Select.runsAs {q : Select} {conditions : List Predicate}
    (h : List.Forall₂ Predicate.RunsAs conditions q.conditions) (s : Schema) (db : Database) :
    { q with conditions := conditions }.check s = q.check s ∧
      { q with conditions := conditions }.rows db = q.rows db := by
  constructor
  · have hfits : { q with conditions := conditions }.parameters.all Parameter.fits =
        q.parameters.all Parameter.fits := by
      simp only [parameters, List.all_append, Predicate.fits_runsAs h]
    have hresolves : { q with conditions := conditions }.resolves s = q.resolves s := by
      simp only [resolves, Predicate.columnsOf_runsAs h]
    have hstorable : { q with conditions := conditions }.checkStorable = q.checkStorable := by
      simp only [checkStorable, parameters, forM_append, Predicate.storable_runsAs h]
    unfold check
    rw [hfits, hresolves, hstorable]
  · simp only [rows, Predicate.all_holds_runsAs h]

/-! ### Plans -/

namespace Plan

open Repository

variable {s : Schema} {p : Plan}

/-- A plan is another one but for predicates that run alike. -/
def Replaces (q p : Plan) : Prop :=
  ∃ predicates, q = { p with predicates := predicates } ∧
    List.Forall₂ Predicate.RunsAs predicates p.predicates

namespace Replaces

variable {q : Plan} (h : q.Replaces p)

include h

theorem joinsAs : q.JoinsAs p := by
  obtain ⟨predicates, rfl, -⟩ := h
  exact ⟨rfl, rfl, rfl, rfl⟩

theorem conditions : List.Forall₂ Predicate.RunsAs q.conditions p.conditions := by
  obtain ⟨predicates, rfl, hpredicates⟩ := h
  rw [conditions_eq_append, conditions_eq_append p]
  exact List.rel_append hpredicates (List.forall₂_same.mpr fun k _ => .refl k)

theorem outline : q.outline = p.outline := by
  refine h.joinsAs.outline ?_
  obtain ⟨predicates, rfl, -⟩ := h
  rfl

theorem load (db : Database) (o : Outline) : Repository.load s db q o = Repository.load s db p o := by
  have hbounds : q.limit = p.limit ∧ q.offset = p.offset := by
    obtain ⟨predicates, rfl, -⟩ := h
    exact ⟨rfl, rfl⟩
  unfold Repository.load
  rw [h.joinsAs.assemble]
  cases hselection : p.assemble o.1 o.2 with
  | error e => rfl
  | ok selection =>
    obtain ⟨hconditions, -, hlimit, hoffset⟩ := frame_assemble hselection
    obtain ⟨hcheck, hrows⟩ := Select.runsAs (q := selection.select) (hconditions ▸ h.conditions) s db
    simp only [bind, Except.bind, Except.map, Select.run, hbounds.1, hbounds.2, ← hlimit, ← hoffset,
      hcheck, hrows]

theorem countRows (db : Database) : Repository.countRows s db q = Repository.countRows s db p := by
  unfold Repository.countRows
  rw [h.joinsAs.keySelection]
  cases hkeys : p.keySelection with
  | error e => rfl
  | ok keys =>
    obtain ⟨hcheck, hrows⟩ :=
      Select.runsAs (q := keys) (conditions_keySelection hkeys ▸ h.conditions) s db
    simp only [bind, Except.bind, Except.map, Select.runCount, Select.countDistinct, hcheck, hrows]
    rfl

theorem readAll (db : Database) (hydration : Hydration) (o : Outline) :
    Repository.readAll s db q hydration o = Repository.readAll s db p hydration o := by
  unfold Repository.readAll
  rw [h.load]
  obtain ⟨predicates, rfl, -⟩ := h
  rfl

end Replaces

/-- Parameters whose predicates run alike on every plan of a root give plans that run alike. -/
theorem corresponds_build {operators : OperatorTable Operator} {root : Entity} {d : Descriptor}
    {parameters : OrderedMap Value} (hd : d.DistinctAliases root)
    (h : ∀ p : Plan, p.Layout s → p.root = root → List.Forall₂ (fun e' e => Corresponds Predicate.RunsAs
      (p.parameterPredicate operators e'.1 e'.2) (p.parameterPredicate operators e.1 e.2))
        parameters.entries d.parameters.entries) :
    Corresponds Replaces (build s operators root { d with parameters := parameters }).plan
      (build s operators root d).plan := by
  rw [plan_build, plan_build]
  refine Corresponds.map (R := Replaces) ?_ fun q p hqp => ?_
  · refine Corresponds.bind_same fun first hstart => Corresponds.bind_same fun joined hjoined => ?_
    have hframe := withRelations_eq_ok_iff.mp hjoined
    obtain ⟨hroot, hnone, -⟩ := frame_joined hstart hframe
    refine (Corresponds.mapM (h joined (layout_joined hd hstart hframe) hroot)).bind
      fun qs ps hqs => .ok ⟨_, rfl, ?_⟩
    rw [hnone]
    exact hqs
  · obtain ⟨predicates, rfl, hpredicates⟩ := hqp
    exact ⟨predicates, rfl, hpredicates⟩

end Plan

namespace Repository

open Plan

variable {s : Schema} {r r' : Repository} {d : Descriptor} {parameters : OrderedMap Value}

/-- A query that asks for no cache is answered as another one whose plan runs alike. -/
theorem run_of_replaces (hcache : d.cache = none)
    (h : Corresponds Replaces (planOf s r' { d with parameters := parameters }) (planOf s r d))
    (db : Database) :
    (run r' (fetchAll s db (.descriptor { d with parameters := parameters }))).1 =
        (run r (fetchAll s db (.descriptor d))).1 ∧
      (run r' (count s db (.descriptor { d with parameters := parameters }))).1 =
        (run r (count s db (.descriptor d))).1 := by
  have hcount (r : Repository) (e : Descriptor) :
      (run r (count s db (.descriptor e))).1 = answerCount s db r e :=
    (outcome_count s db e ⟨r, []⟩).answer
  rw [run_fetchAll, run_fetchAll, hcount, hcount]
  unfold answerAll answerCount readThrough
  generalize planOf s r' { d with parameters := parameters } = x at h ⊢
  generalize planOf s r d = y at h ⊢
  cases h with
  | error e => exact ⟨rfl, rfl⟩
  | @ok q p h =>
    simp only [bind, Except.bind, h.outline, h.readAll, h.countRows, hcache, and_true]
    cases p.outline <;> rfl

end Repository
end EntityQuery
