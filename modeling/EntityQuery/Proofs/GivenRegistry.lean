import EntityQuery.Proofs.Layout
import EntityQuery.Proofs.Runs
/-!
The registry that lookups go through. A builder chooses it once, between the shared registry and the one it
is given, and from then on everything that is looked up is kept there; the other registry is never touched.
A given registry is chosen unless it is empty.
-/
namespace EntityQuery

/-! ### What a registry holds -/

namespace Registry

variable {s : Schema} {r u : Registry} {e : Entity} {name n : String}

theorem has_insert (r : Registry) (name : String) (e : Entity) :
    Registry.has ⟨r.entries.insert name e⟩ n = true ↔ r.has n = true ∨ n = name := by
  simp only [has, OrderedMap.contains]
  by_cases h : n = name
  · rw [h, OrderedMap.find?_insert_self]
    simp
  · rw [OrderedMap.find?_insert_of_ne _ _ h]
    simp [h]

theorem has_keep : (r.keep e).has n = true ↔ r.has n = true ∨ n = e.name := by
  unfold keep
  split
  · rename_i h
    refine ⟨.inl, fun hn => hn.elim id ?_⟩
    rintro rfl
    exact h
  · exact has_insert r e.name e

theorem has_foldl_keep (es : List Entity) :
    (es.foldl keep r).has n = true ↔ r.has n = true ∨ ∃ e ∈ es, e.name = n := by
  induction es generalizing r with
  | nil => simp
  | cons e es ih =>
    rw [List.foldl_cons, ih, has_keep, or_assoc, List.exists_mem_cons_iff, @eq_comm _ n]

/-- A lookup keeps the name, and nothing else. -/
theorem has_get (h : get s r name = .ok (e, u)) : u.has n = true ↔ r.has n = true ∨ n = name := by
  unfold get at h
  split at h
  · rename_i hfind
    cases h
    refine ⟨.inl, fun hn => hn.elim id ?_⟩
    rintro rfl
    simp [has, OrderedMap.contains, hfind]
  · split at h <;> cases h
    exact has_insert r name e

theorem not_has_of_isEmpty (h : r.isEmpty = true) : r.has n = false := by
  have hentries : r.entries.entries = [] := List.isEmpty_iff.mp h
  simp [has, OrderedMap.contains, OrderedMap.find?, hentries]

end Registry

namespace Registries

variable {usesGiven : Bool} {r : Registries}

/-- There is a given registry, if it is to be used. -/
def CanUse (r : Registries) (usesGiven : Bool) : Prop := usesGiven = true → r.given.isSome = true

theorem canUse_prefersGiven (r : Registries) : r.CanUse r.prefersGiven := by
  intro h
  unfold prefersGiven at h
  cases hgiven : r.given with
  | none =>
    rw [hgiven] at h
    cases h
  | some given => rfl

theorem CanUse.record (h : r.CanUse usesGiven) (u : Registry) : (r.record usesGiven u).CanUse usesGiven := by
  intro hu
  simpa [Registries.record, hu] using h hu

theorem CanUse.chosen_record (h : r.CanUse usesGiven) (u : Registry) :
    (r.record usesGiven u).chosen usesGiven = u := by
  cases usesGiven with
  | false => rfl
  | true =>
    obtain ⟨given, hgiven⟩ := Option.isSome_iff_exists.mp (h rfl)
    simp [Registries.record, chosen, hgiven]

theorem CanUse.record_chosen (h : r.CanUse usesGiven) : r.record usesGiven (r.chosen usesGiven) = r := by
  cases usesGiven with
  | false => rfl
  | true =>
    obtain ⟨given, hgiven⟩ := Option.isSome_iff_exists.mp (h rfl)
    obtain ⟨shared, _⟩ := r
    cases hgiven
    rfl

theorem record_record (r : Registries) (u v : Registry) :
    (r.record usesGiven u).record usesGiven v = r.record usesGiven v := by
  cases usesGiven with
  | false => rfl
  | true =>
    simp only [record, if_true, Option.map_map]
    rfl

end Registries

/-! ### What a build looks up -/

namespace Plan

variable {s : Schema} {operators : OperatorTable Operator} {root : Entity} {d : Descriptor} {p : Plan}
  {j : JoinClause}

/-- The joins that a build makes, also if it fails in the end. -/
def joinsMade (s : Schema) (root : Entity) (d : Descriptor) : List JoinClause :=
  match start root d with
  | .error _ => []
  | .ok p => (p.addRelations s d.relations.entries).1.joins

/-- They are the joins of the plan, if there is one. -/
theorem joinsMade_eq (h : (build s operators root d).plan = .ok p) : joinsMade s root d = p.joins := by
  obtain ⟨first, joined, filtered, hstart, hjoined, hfiltered, rfl⟩ := build_eq_ok h
  obtain ⟨predicates, -, rfl⟩ := addParameters_eq_ok hfiltered
  unfold joinsMade
  rw [hstart]
  simp only [hjoined]
  rfl

/-- The target of each new join has been looked up. -/
theorem mem_relationLookups {relations : List (String × RelationOptions)}
    (hj : j ∈ (p.addRelations s relations).1.joins) :
    j ∈ p.joins ∨ j.target ∈ p.relationLookups s relations := by
  induction relations generalizing p with
  | nil => exact .inl hj
  | cons entry rest ih =>
    obtain ⟨key, o⟩ := entry
    unfold addRelations at hj
    cases hq : p.addRelation s key o with
    | error e =>
      rw [hq] at hj
      exact .inl hj
    | ok q =>
      rw [hq] at hj
      obtain ⟨target, condition, fields, htarget, -, -, -, hq'⟩ := addRelation_eq_ok hq
      unfold relationLookups
      simp only [htarget, hq]
      rcases ih hj with hold | hnew
      · rw [hq'] at hold
        rcases List.mem_append.mp hold with hold | hthis
        · exact .inl hold
        · rw [List.mem_singleton.mp hthis]
          exact .inr List.mem_cons_self
      · exact .inr (List.mem_cons_of_mem _ hnew)

theorem target_mem_lookups (operators : OperatorTable Operator) (hj : j ∈ joinsMade s root d) :
    j.target ∈ lookups s operators root d := by
  unfold joinsMade at hj
  unfold lookups
  cases hstart : start root d with
  | error e =>
    rw [hstart] at hj
    cases hj
  | ok first =>
    rw [hstart] at hj
    rcases mem_relationLookups hj with hold | hnew
    · rw [start_eq_ok hstart] at hold
      cases hold
    · exact List.mem_append_left _ hnew

end Plan

/-! ### Builds one after the other -/

namespace Builder

/-- The builder after it has built the plans of some descriptors, with or without success. -/
def buildAll (s : Schema) (b : Builder) : List Descriptor → Builder
  | [] => b
  | d :: ds => buildAll s (b.build s d).2 ds

/-- What the registry of a builder holds after some builds: what it held before, the name that the builder was
made for, and all that the builds have looked up, the targets of their joins among it. -/
structure Collects (s : Schema) (b : Builder) (name : String) (ds : List Descriptor)
    (before after : Registry) : Prop where
  contents : ∀ n, after.has n = true ↔
    before.has n = true ∨ n = name ∨ ∃ d ∈ ds, ∃ e ∈ Plan.lookups s b.operators b.root d, e.name = n
  joined : ∀ d ∈ ds, ∀ j ∈ Plan.joinsMade s b.root d, after.has j.target.name = true

/-- All lookups of a builder and of its builds have gone through the given registry, and the shared one is as it
was. -/
def GoesThrough (s : Schema) (b : Builder) (name : String) (ds : List Descriptor) (shared given : Registry)
    (registries : Registries) : Prop :=
  ∃ after, registries = ⟨shared, some after⟩ ∧ b.Collects s name ds given after

variable {s : Schema} {operators : OperatorTable Operator} {registries : Registries} {name : String}
  {b : Builder}

/-- All lookups of all builds are kept in the chosen registry. -/
theorem registries_buildAll (h : b.registries.CanUse b.usesGiven) (ds : List Descriptor) :
    (b.buildAll s ds).registries = b.registries.record b.usesGiven
      ((ds.flatMap (Plan.lookups s b.operators b.root)).foldl Registry.keep
        (b.registries.chosen b.usesGiven)) := by
  induction ds generalizing b with
  | nil => exact h.record_chosen.symm
  | cons d ds ih =>
    refine (ih (h.record _)).trans ?_
    rw [List.flatMap_cons, List.foldl_append]
    simp only [build, h.chosen_record, Registries.record_record]

/-- The builds of a builder leave the chosen registry with what they have looked up, and the other one as it
was. -/
theorem collects_buildAll (h : ofName s operators registries name = .ok b) (ds : List Descriptor) :
    ∃ after, (b.buildAll s ds).registries = registries.record registries.prefersGiven after ∧
      b.Collects s name ds (registries.chosen registries.prefersGiven) after := by
  obtain ⟨⟨root, found⟩, hget, hb⟩ := ok_of_map h
  have hcan := registries.canUse_prefersGiven
  subst hb
  refine ⟨_, (registries_buildAll (hcan.record found) ds).trans (Registries.record_record ..), ?_⟩
  rw [hcan.chosen_record]
  have hcontents : ∀ n, ((ds.flatMap (Plan.lookups s operators root)).foldl Registry.keep found).has n = true ↔
      (registries.chosen registries.prefersGiven).has n = true ∨ n = name ∨
        ∃ d ∈ ds, ∃ e ∈ Plan.lookups s operators root d, e.name = n := by
    intro n
    rw [Registry.has_foldl_keep, Registry.has_get hget, or_assoc]
    refine or_congr Iff.rfl (or_congr Iff.rfl ⟨?_, ?_⟩)
    · rintro ⟨e, he, rfl⟩
      obtain ⟨d, hd, he⟩ := List.mem_flatMap.mp he
      exact ⟨d, hd, e, he, rfl⟩
    · rintro ⟨d, hd, e, he, rfl⟩
      exact ⟨e, List.mem_flatMap.mpr ⟨d, hd, he⟩, rfl⟩
  exact ⟨hcontents, fun d hd j hj =>
    (hcontents _).mpr (.inr (.inr ⟨d, hd, _, Plan.target_mem_lookups operators hj, rfl⟩))⟩

end Builder

/-! ### Operations of a repository -/

namespace Work

variable {α β : Type} {a : Work α} {f : α → Work β}

/-- The work leaves the builder as it is. -/
def KeepsBuilder (a : Work α) : Prop :=
  ∀ t, (a.run t).2.repository.builder = t.repository.builder

theorem Answers.keepsBuilder {x : Except QueryError α} (h : Answers a x) : KeepsBuilder a := fun t => by
  rw [(h t).2]

theorem builder_bind (hf : ∀ v, KeepsBuilder (f v)) (t : Session) :
    ((a >>= f).run t).2.repository.builder = (a.run t).2.repository.builder := by
  rw [run_bind]
  rcases a.run t with ⟨e | v, u⟩
  · rfl
  · exact hf v u

theorem KeepsBuilder.bind (ha : KeepsBuilder a) (hf : ∀ v, KeepsBuilder (f v)) : KeepsBuilder (a >>= f) :=
  fun t => (builder_bind hf t).trans (ha t)

end Work

namespace Repository

open Work

variable {s : Schema}

/-- Drawing up a plan builds it, if the input is accepted. -/
theorem builder_plan (input : QueryInput) (operation : String) (allowsNone : Bool) (t : Session) :
    ((plan s input operation allowsNone).run t).2.repository.builder =
      (input.resolve operation allowsNone).toOption.elim t.repository.builder fun d =>
        (t.repository.builder.build s d).2 := by
  cases hd : input.resolve operation allowsNone with
  | error e =>
    rw [run_plan_refused hd]
    rfl
  | ok d =>
    simp only [plan, hd, run_bind, run_ofResult, run_get, run_modify, run_emit]
    cases (t.repository.builder.build s d).1.plan <;> rfl

theorem keepsBuilder_execute (d : Descriptor) (p : Plan) (o : Outline) (kind : String) {run : Work Fetched}
    (hrun : KeepsBuilder run) : KeepsBuilder (execute d p o kind run) := by
  unfold execute
  cases d.cache with
  | none => exact hrun
  | some c =>
    refine KeepsBuilder.bind (fun _ => rfl) fun session => ?_
    cases session.repository.store with
    | none => exact (answers_emit _).keepsBuilder.bind fun _ => hrun
    | some store =>
      refine (answers_ofResult _).keepsBuilder.bind fun key => ?_
      rcases store.get key with ⟨known, line⟩
      refine (answers_emit _).keepsBuilder.bind fun _ => ?_
      cases known with
      | some value => exact (answers_pure value).keepsBuilder
      | none =>
        exact hrun.bind fun value =>
          KeepsBuilder.bind (fun _ => rfl) fun _ => (answers_pure value).keepsBuilder

/-- What an operation does after its plan is drawn up leaves the builder as it is. -/
theorem builder_fetchAll (db : Database) (input : QueryInput) (t : Session) :
    ((fetchAll s db input).run t).2.repository.builder =
      ((plan s input "fetch_all" false).run t).2.repository.builder := by
  unfold fetchAll
  refine builder_bind (fun ⟨d, p⟩ => ?_) t
  refine (answers_ofResult _).keepsBuilder.bind fun o => ?_
  refine (keepsBuilder_execute d p o "all" (answers_runAll s db p d.hydration o).keepsBuilder).bind
    fun fetched => ?_
  split
  · exact (answers_runCount s db p).keepsBuilder.bind fun total => (answers_pure _).keepsBuilder
  · exact (answers_pure _).keepsBuilder

theorem builder_fetchOne (db : Database) (input : QueryInput) (t : Session) :
    ((fetchOne s db input).run t).2.repository.builder =
      ((plan s input "fetch_one" false).run t).2.repository.builder := by
  unfold fetchOne
  refine builder_bind (fun ⟨d, p⟩ => ?_) t
  refine (answers_ofResult _).keepsBuilder.bind fun o => ?_
  refine (keepsBuilder_execute d p o "one" (answers_runOne s db p d.hydration o).keepsBuilder).bind
    fun fetched => ?_
  cases fetched <;> exact (answers_pure _).keepsBuilder

theorem builder_count (db : Database) (input : QueryInput) (t : Session) :
    ((count s db input).run t).2.repository.builder =
      ((plan s input "count" true).run t).2.repository.builder := by
  unfold count
  exact builder_bind (fun ⟨_, p⟩ => (answers_runCount s db p).keepsBuilder) t

theorem builder_explain (input : QueryInput) (t : Session) :
    ((explain s input).run t).2.repository.builder =
      ((plan s input "explain" true).run t).2.repository.builder := by
  unfold explain
  exact builder_bind (fun ⟨_, p⟩ => (answers_pure p).keepsBuilder) t

end Repository

namespace Step

/-- The descriptor that a step builds the plan of. -/
def descriptor? : Step → Option Descriptor
  | fetchAll input => (input.resolve "fetch_all" false).toOption
  | fetchOne input => (input.resolve "fetch_one" false).toOption
  | count input => (input.resolve "count" true).toOption
  | explain input => (input.resolve "explain" true).toOption
  | write _ => none

/-- Of all that a step does, only the plan that it builds matters to the builder. -/
theorem builds_run (s : Schema) (w : World) (a : Step) :
    (a.run s w).2.repository.builder =
      a.descriptor?.elim w.repository.builder fun d => (w.repository.builder.build s d).2 := by
  cases a with
  | fetchAll input => exact (Repository.builder_fetchAll w.db input _).trans (Repository.builder_plan ..)
  | fetchOne input => exact (Repository.builder_fetchOne w.db input _).trans (Repository.builder_plan ..)
  | count input => exact (Repository.builder_count w.db input _).trans (Repository.builder_plan ..)
  | explain input => exact (Repository.builder_explain input _).trans (Repository.builder_plan ..)
  | write a => rfl

end Step

/-- The builder of a repository after a run has built the plans of its steps. -/
theorem World.builds_after (s : Schema) (w : World) (steps : List Step) :
    (w.after s steps).repository.builder =
      w.repository.builder.buildAll s (steps.filterMap Step.descriptor?) := by
  induction steps generalizing w with
  | nil => rfl
  | cons a steps ih =>
    have hstep := Step.builds_run s w a
    rw [World.after, List.foldl_cons, ← World.after, ih, hstep]
    cases ha : a.descriptor? with
    | none => rw [List.filterMap_cons_none ha, Option.elim_none]
    | some d => rw [List.filterMap_cons_some ha, Option.elim_some, Builder.buildAll]

namespace Builder

variable {s : Schema} {operators : OperatorTable Operator} {shared given after : Registry} {name : String}
  {b : Builder}

theorem prefersGiven_given : Registries.prefersGiven ⟨shared, some given⟩ = !given.isEmpty := rfl

/-- Builds go through a given registry and leave the shared one as it is, unless the given one is empty. -/
theorem goesThrough_buildAll_iff (h : ofName s operators ⟨shared, some given⟩ name = .ok b)
    (ds : List Descriptor) :
    b.GoesThrough s name ds shared given (b.buildAll s ds).registries ↔ given.isEmpty = false := by
  obtain ⟨after, hregistries, hcollects⟩ := collects_buildAll h ds
  cases hempty : given.isEmpty with
  | false =>
    rw [prefersGiven_given, hempty] at hregistries hcollects
    exact iff_of_true ⟨after, hregistries, hcollects⟩ rfl
  | true =>
    rw [prefersGiven_given, hempty] at hregistries
    refine iff_of_false ?_ (by decide)
    rintro ⟨u, hu, hcollected⟩
    -- nothing has been put into the given registry, not even the root
    have hgiven : u = given := by
      rw [hregistries] at hu
      simpa [Registries.record] using (congrArg Registries.given hu).symm
    have hroot := (hcollected.contents name).mpr (.inr (.inl rfl))
    rw [hgiven, Registry.not_has_of_isEmpty hempty] at hroot
    cases hroot

/-- A given registry is the one that a builder and a repository use, in every run, unless it is empty: an
empty one is passed over. -/
theorem goesThrough_given_iff (h : ofName s operators ⟨shared, some given⟩ name = .ok b)
    (ds : List Descriptor) (db : Database) (store : Option (ResultStore Fetched)) (steps : List Step) :
    (b.GoesThrough s name ds shared given (b.buildAll s ds).registries ↔ given.isEmpty = false) ∧
    (b.GoesThrough s name (steps.filterMap Step.descriptor?) shared given
      (World.after s ⟨db, b, store⟩ steps).repository.builder.registries ↔ given.isEmpty = false) := by
  refine ⟨goesThrough_buildAll_iff h ds, ?_⟩
  rw [World.builds_after]
  exact goesThrough_buildAll_iff h _

/-- Articles with their comments. -/
def commentedArticles : Descriptor where
  relations := .ofList [("comments", {})]

/-- A registry that holds the users already goes on to hold the articles and their comments. -/
theorem goesThrough_givenUsers : ∃ b,
    ofName Model.sample .builtIn ⟨.empty, some (Registry.empty.keep Model.Blog.user)⟩ "Article" = .ok b ∧
    b.GoesThrough Model.sample "Article" [commentedArticles] .empty (Registry.empty.keep Model.Blog.user)
      (b.buildAll Model.sample [commentedArticles]).registries ∧
    b.GoesThrough Model.sample "Article" [commentedArticles] .empty (Registry.empty.keep Model.Blog.user)
      (World.after Model.sample ⟨Model.sampleRows, b, none⟩
        [.fetchAll (.descriptor commentedArticles)]).repository.builder.registries := by
  obtain ⟨b, hb⟩ := exists_ok_of_toOption (x := ofName Model.sample .builtIn
    ⟨.empty, some (Registry.empty.keep Model.Blog.user)⟩ "Article") (by decide +kernel)
  have hgoes := goesThrough_given_iff hb [commentedArticles] Model.sampleRows none
    [.fetchAll (.descriptor commentedArticles)]
  exact ⟨b, hb, hgoes.1.mpr (by decide), hgoes.2.mpr (by decide)⟩

/-- An empty registry stays empty, and the shared one takes the articles and their comments. -/
theorem not_goesThrough_empty : ∃ b,
    ofName Model.sample .builtIn ⟨.empty, some .empty⟩ "Article" = .ok b ∧
    (b.buildAll Model.sample [commentedArticles]).registries.given.map Registry.size = some 0 ∧
    (b.buildAll Model.sample [commentedArticles]).registries.shared.entries.keys = ["Article", "Comment"] ∧
    ¬ b.GoesThrough Model.sample "Article" [commentedArticles] .empty .empty
      (b.buildAll Model.sample [commentedArticles]).registries := by
  have hbuilt : ((ofName Model.sample .builtIn ⟨.empty, some .empty⟩ "Article").toOption.map fun b =>
      let registries := (b.buildAll Model.sample [commentedArticles]).registries
      (registries.given.map Registry.size, registries.shared.entries.keys)) =
        some (some 0, ["Article", "Comment"]) := by decide +kernel
  obtain ⟨b, hb, hregistries⟩ := Option.map_eq_some_iff.mp hbuilt
  obtain ⟨hgiven, hshared⟩ := Prod.mk.inj hregistries
  refine ⟨b, eq_ok_of_toOption hb, hgiven, hshared, ?_⟩
  rintro ⟨after, hafter, -⟩
  rw [hafter] at hshared
  cases hshared

end Builder
end EntityQuery
