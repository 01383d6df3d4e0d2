import EntityQuery.Proofs.Cache
import EntityQuery.Proofs.Writes
/-!
Runs of a repository with a store while rows are written to the database. A step looks the store up
under at most one key. It adds this key if it was absent and the query gave a result; nothing else ever
changes the store, so what was stored once is what all later fetches with its key answer.
-/
namespace EntityQuery

/-- The item of a result that stands for the whole: the single one, or the first. -/
def Fetched.first : Fetched → Option Item
  | .single item => item
  | .list items => items.head?
  | .indexed entries => entries.head?.map Prod.snd

/-- One step of a run: an operation of the repository, or a write to the database. -/
inductive Step where
  | fetchAll (input : QueryInput)
  | fetchOne (input : QueryInput)
  | count (input : QueryInput)
  | explain (input : QueryInput)
  | write (w : Write)

/-- What a step answers. -/
inductive StepReply where
  | fetched (r : Reply)
  | counted (n : Except QueryError Nat)
  | explained (p : Except QueryError Plan)
  | written

/-- A database, and the repository that reads it. -/
structure World where
  db : Database
  repository : Repository

namespace Repository

open Work

variable {s : Schema} {input : QueryInput} {operation : String} {allowsNone : Bool} {e : QueryError}

/-- An input counts only through the descriptor that it resolves to. -/
theorem plan_resolve {d : Descriptor} (h : input.resolve operation allowsNone = .ok d) :
    plan s input operation allowsNone = plan s (.descriptor d) operation allowsNone := by
  unfold plan
  rw [h]
  rfl

theorem fetchAll_resolve {d : Descriptor} (h : input.resolve "fetch_all" false = .ok d) (db : Database) :
    fetchAll s db input = fetchAll s db (.descriptor d) := by
  unfold fetchAll
  rw [plan_resolve h]

theorem fetchOne_resolve {d : Descriptor} (h : input.resolve "fetch_one" false = .ok d) (db : Database) :
    fetchOne s db input = fetchOne s db (.descriptor d) := by
  unfold fetchOne
  rw [plan_resolve h]

theorem count_resolve {d : Descriptor} (h : input.resolve "count" true = .ok d) (db : Database) :
    count s db input = count s db (.descriptor d) := by
  unfold count
  rw [plan_resolve h]

theorem explain_resolve {d : Descriptor} (h : input.resolve "explain" true = .ok d) :
    explain s input = explain s (.descriptor d) := by
  unfold explain
  rw [plan_resolve h]

/-- Nothing is logged or built for an input that is refused. -/
theorem run_plan_refused (h : input.resolve operation allowsNone = .error e) (t : Session) :
    (plan s input operation allowsNone).run t = (.error e, t) := by
  simp only [plan, h, run_bind, run_ofResult]

theorem outcome_plan_refused (h : input.resolve operation allowsNone = .error e) (t : Session) :
    Outcome (plan s input operation allowsNone) t (.error e) t.repository.store := by
  refine ⟨?_, ?_, ?_, ?_⟩ <;> rw [run_plan_refused h t]

theorem outcome_explain (s : Schema) (d : Descriptor) (t : Session) :
    Outcome (explain s (.descriptor d)) t (planOf s t.repository d) t.repository.store := by
  have hplan := outcome_plan s d "explain" true t
  unfold explain
  cases hp : planOf s t.repository d with
  | error e =>
    rw [hp] at hplan
    exact hplan.bind_error
  | ok p =>
    rw [hp] at hplan
    exact hplan.bind_ok fun _ hu => .of_answers (answers_pure p) hu

theorem exists_outcome_fetchAll (s : Schema) (db : Database) (input : QueryInput) (t : Session) :
    ∃ x store, Outcome (fetchAll s db input) t x store := by
  cases hd : input.resolve "fetch_all" false with
  | error e => exact ⟨_, _, (outcome_plan_refused hd t).bind_error⟩
  | ok d =>
    rw [fetchAll_resolve hd]
    exact ⟨_, _, outcome_fetchAll s db d t⟩

theorem exists_outcome_fetchOne (s : Schema) (db : Database) (input : QueryInput) (t : Session) :
    ∃ x store, Outcome (fetchOne s db input) t x store := by
  cases hd : input.resolve "fetch_one" false with
  | error e => exact ⟨_, _, (outcome_plan_refused hd t).bind_error⟩
  | ok d =>
    rw [fetchOne_resolve hd]
    exact ⟨_, _, outcome_fetchOne s db d t⟩

/-- To explain or to count leaves the store as it is. -/
theorem exists_outcome_explain (s : Schema) (input : QueryInput) (t : Session) :
    ∃ x, Outcome (explain s input) t x t.repository.store := by
  cases hd : input.resolve "explain" true with
  | error e => exact ⟨_, (outcome_plan_refused hd t).bind_error⟩
  | ok d =>
    rw [explain_resolve hd]
    exact ⟨_, outcome_explain s d t⟩

theorem exists_outcome_count (s : Schema) (db : Database) (input : QueryInput) (t : Session) :
    ∃ x, Outcome (count s db input) t x t.repository.store := by
  cases hd : input.resolve "count" true with
  | error e => exact ⟨_, (outcome_plan_refused hd t).bind_error⟩
  | ok d =>
    rw [count_resolve hd]
    exact ⟨_, outcome_count s db d t⟩

end Repository

namespace Call

open Repository

variable {s : Schema} {db : Database} {c : Call} {known : ResultStore Fetched} {key : String}

/-- The key under which a call looks a store up, if it asks for a cache and is built. -/
def storeKey? (s : Schema) (space : String) (c : Call) : Option String := do
  let options ← c.descriptor.cache
  let (p, o) ← (c.planned s).toOption
  (resultKey space c.descriptor options p o c.kind).toOption

/-- How long a call asks its result to be kept. -/
def ttl (c : Call) : Option Nat := c.descriptor.cache.bind (·.ttl)

/-- A call that has a key goes through the store under it. -/
theorem stored_of_key (h : c.storeKey? s known.space = some key) :
    c.stored s db (some known) = match known.entries.find? key with
      | some entry => (.ok entry.1, some known)
      | none => match c.read s db with
        | .error e => (.error e, some known)
        | .ok value => (.ok value, some (known.set key value c.ttl)) := by
  obtain ⟨options, hcache, h⟩ := Option.bind_eq_some_iff.mp h
  obtain ⟨⟨p, o⟩, hplanned, hkey⟩ := Option.bind_eq_some_iff.mp h
  have hstored : c.stored s db (some known) =
      readThrough (some known) c.descriptor p o c.kind (c.read s db) := by
    simp only [stored, read, eq_ok_of_toOption hplanned, bind, Except.bind]
  rw [hstored]
  cases hfind : known.entries.find? key with
  | some entry => simp only [readThrough, hcache, eq_ok_of_toOption hkey, hfind]
  | none =>
    cases c.read s db <;>
      simp only [readThrough, ttl, hcache, eq_ok_of_toOption hkey, hfind, Option.bind_some]

/-- A call that has no key leaves a store as it is, and what it gets it has read from the database. -/
theorem stored_of_no_key (h : c.storeKey? s known.space = none) :
    (c.stored s db (some known)).2 = some known ∧
      ∀ value, (c.stored s db (some known)).1 = .ok value → c.read s db = .ok value := by
  unfold stored readThrough read
  cases hp : c.planned s with
  | error e => exact ⟨rfl, fun value hvalue => hvalue⟩
  | ok po =>
    obtain ⟨p, o⟩ := po
    cases hcache : c.descriptor.cache with
    | none => exact ⟨rfl, fun value hvalue => hvalue⟩
    | some options =>
      cases hkey : resultKey known.space c.descriptor options p o c.kind with
      | error e =>
        simp only [hkey, true_and]
        exact fun value hvalue => nomatch hvalue
      | ok key =>
        have hsome : c.storeKey? s known.space = some key := by
          unfold storeKey?
          rw [hcache, hp]
          exact congrArg Except.toOption hkey
        rw [h] at hsome
        cases hsome

/-- What a call for one match reads is a single result, and what a call for all reads is not. -/
theorem read_kind {value : Fetched} (h : c.read s db = .ok value) :
    c.one = true ↔ ∃ item, value = .single item := by
  obtain ⟨⟨p, o⟩, -, h⟩ := ok_of_bind h
  dsimp only at h
  by_cases hone : c.one = true
  · rw [if_pos hone] at h
    refine iff_of_true hone ?_
    obtain ⟨⟨roots, g⟩, -, h⟩ := ok_of_bind h
    rcases roots with _ | ⟨key, _ | ⟨k, ks⟩⟩
    · exact ⟨none, (Except.ok.inj h).symm⟩
    · obtain ⟨items, -, h⟩ := ok_of_bind h
      exact ⟨items.head?, (Except.ok.inj h).symm⟩
    · exact ⟨none, (Except.ok.inj h).symm⟩
  · rw [if_neg hone] at h
    refine iff_of_false hone ?_
    rintro ⟨item, rfl⟩
    obtain ⟨roots, g, -, hshape⟩ := readAll_eq_ok h
    unfold shape at hshape
    split at hshape
    all_goals
      obtain ⟨_, -, hsingle⟩ := ok_of_map hshape
      cases hsingle

/-- What a call answers if a store knows its result: the value is what it takes for its rows. The total
of a page is counted afresh. -/
structure Recalls (s : Schema) (db : Database) (c : Call) (value : Fetched) (r : Reply) : Prop where
  single : c.one = true → r = .one (.ok value.first)
  plain : c.one = false → c.descriptor.countAvailableRows = false → r = .all (.ok (.plain value))
  page : c.one = false → c.descriptor.countAvailableRows = true → ∀ p o,
    c.planned s = .ok (p, o) → r = .all ((countRows s db p).map fun total =>
      .page { items := value, total := total, limit := c.descriptor.limit.map Int.ofNat,
              offset := c.descriptor.offset.map Int.ofNat })

theorem recalls_replyWith {space : String} (h : c.storeKey? s space = some key) (value : Fetched) :
    c.Recalls s db value (c.replyWith s db (.ok value)) := by
  obtain ⟨options, -, h⟩ := Option.bind_eq_some_iff.mp h
  obtain ⟨⟨p, o⟩, hplanned, -⟩ := Option.bind_eq_some_iff.mp h
  have hplanned := eq_ok_of_toOption hplanned
  unfold replyWith
  refine ⟨fun hone => ?_, fun hone hcount => ?_, fun hone hcount p' o' hp' => ?_⟩
  · rw [if_pos hone, hplanned]
    cases value <;> rfl
  · simp only [hone, hcount, hplanned, bind, Except.bind, Bool.false_eq_true, if_false]
  · cases hplanned.symm.trans hp'
    simp only [hone, hcount, hplanned, bind, Except.bind, Bool.false_eq_true, if_false, if_true]
    cases countRows s db p <;> rfl

end Call

namespace Step

variable {s : Schema}

/-- The call that a fetch makes; none if it is no fetch or its input is refused. -/
def call? (b : Builder) : Step → Option Call
  | fetchAll input => (input.resolve "fetch_all" false).toOption.map fun d => ⟨b, false, d⟩
  | fetchOne input => (input.resolve "fetch_one" false).toOption.map fun d => ⟨b, true, d⟩
  | _ => none

/-- A step in a world: what it answers, and the world after it. -/
def run (s : Schema) (w : World) : Step → StepReply × World
  | fetchAll input =>
    let out := w.repository.run (Repository.fetchAll s w.db input)
    (.fetched (.all out.1), { w with repository := out.2.repository })
  | fetchOne input =>
    let out := w.repository.run (Repository.fetchOne s w.db input)
    (.fetched (.one out.1), { w with repository := out.2.repository })
  | count input =>
    let out := w.repository.run (Repository.count s w.db input)
    (.counted out.1, { w with repository := out.2.repository })
  | explain input =>
    let out := w.repository.run (Repository.explain s input)
    (.explained out.1, { w with repository := out.2.repository })
  | write a => (.written, { w with db := a.run s w.db })

/-- A fetch answers and stores what its call does. -/
theorem run_of_call {w : World} {a : Step} {c : Call} (h : a.call? w.repository.builder = some c) :
    (a.run s w).1 = .fetched (c.replyWith s w.db (c.stored s w.db w.repository.store).1) ∧
      (a.run s w).2.repository.store = (c.stored s w.db w.repository.store).2 := by
  have hsend : c.send s w.db w.repository.store =
      (c.replyWith s w.db (c.stored s w.db w.repository.store).1,
        (c.stored s w.db w.repository.store).2) := c.send_eq _
  cases a with
  | fetchAll input =>
    obtain ⟨d, hd, rfl⟩ := Option.map_eq_some_iff.mp h
    simp only [run, Repository.fetchAll_resolve (eq_ok_of_toOption hd)]
    exact ⟨congrArg _ (congrArg Prod.fst hsend), congrArg Prod.snd hsend⟩
  | fetchOne input =>
    obtain ⟨d, hd, rfl⟩ := Option.map_eq_some_iff.mp h
    simp only [run, Repository.fetchOne_resolve (eq_ok_of_toOption hd)]
    exact ⟨congrArg _ (congrArg Prod.fst hsend), congrArg Prod.snd hsend⟩
  | count input => cases h
  | explain input => cases h
  | write a => cases h

theorem store_run_of_no_call {w : World} {a : Step} (h : a.call? w.repository.builder = none) :
    (a.run s w).2.repository.store = w.repository.store := by
  cases a with
  | fetchAll input =>
    cases hd : input.resolve "fetch_all" false with
    | error e => exact (Repository.outcome_plan_refused hd ⟨w.repository, []⟩).bind_error.store
    | ok d =>
      simp only [call?, hd] at h
      cases h
  | fetchOne input =>
    cases hd : input.resolve "fetch_one" false with
    | error e => exact (Repository.outcome_plan_refused hd ⟨w.repository, []⟩).bind_error.store
    | ok d =>
      simp only [call?, hd] at h
      cases h
  | count input =>
    obtain ⟨x, h⟩ := Repository.exists_outcome_count s w.db input ⟨w.repository, []⟩
    exact h.store
  | explain input =>
    obtain ⟨x, h⟩ := Repository.exists_outcome_explain s input ⟨w.repository, []⟩
    exact h.store
  | write a => rfl

/-- A step keeps the root and the operators of the repository. -/
theorem builder_run (w : World) (a : Step) :
    (a.run s w).2.repository.builder.root = w.repository.builder.root ∧
      (a.run s w).2.repository.builder.operators = w.repository.builder.operators := by
  cases a with
  | fetchAll input =>
    obtain ⟨x, store, h⟩ := Repository.exists_outcome_fetchAll s w.db input ⟨w.repository, []⟩
    exact ⟨h.root, h.operators⟩
  | fetchOne input =>
    obtain ⟨x, store, h⟩ := Repository.exists_outcome_fetchOne s w.db input ⟨w.repository, []⟩
    exact ⟨h.root, h.operators⟩
  | count input =>
    obtain ⟨x, h⟩ := Repository.exists_outcome_count s w.db input ⟨w.repository, []⟩
    exact ⟨h.root, h.operators⟩
  | explain input =>
    obtain ⟨x, h⟩ := Repository.exists_outcome_explain s input ⟨w.repository, []⟩
    exact ⟨h.root, h.operators⟩
  | write a => exact ⟨rfl, rfl⟩

/-- A step is a fetch that asks for a cache, finds its key absent and gets a result from its query. -/
structure Adds (s : Schema) (w : World) (known : ResultStore Fetched) (a : Step) (c : Call)
    (key : String) (value : Fetched) : Prop where
  call : a.call? w.repository.builder = some c
  keyed : c.storeKey? s known.space = some key
  absent : known.entries.find? key = none
  read : c.read s w.db = .ok value

/-- What a step does with a store: it adds at most one key, and answers what is known. -/
structure Honours (s : Schema) (w : World) (known : ResultStore Fetched) (a : Step) : Prop where
  adds : ∀ c key value, a.Adds s w known c key value →
    (a.run s w).2.repository.store = some (known.set key value c.ttl) ∧
      (known.set key value c.ttl).entries.keys = known.entries.keys ++ [key] ∧
      (c.one = true ↔ ∃ item, value = .single item)
  keeps : (∀ c key value, ¬ a.Adds s w known c key value) →
    (a.run s w).2.repository.store = some known
  recalls : ∀ c key entry, a.call? w.repository.builder = some c →
    c.storeKey? s known.space = some key → known.entries.find? key = some entry →
    ∃ r, (a.run s w).1 = .fetched r ∧ c.Recalls s w.db entry.1 r

theorem keys_set {known : ResultStore Fetched} {key : String}
    (h : known.entries.find? key = none) (value : Fetched) (ttl : Option Nat) :
    (known.set key value ttl).entries.keys = known.entries.keys ++ [key] := by
  have hnew : key ∉ known.entries.keys := by
    intro hm
    obtain ⟨entry, hentry, hkey⟩ := List.mem_map.mp hm
    have hnone := List.lookup_eq_none_iff.mp h entry hentry
    simp [hkey] at hnone
  rw [ResultStore.set, OrderedMap.keys_insert, if_neg hnew]

theorem honours {w : World} {known : ResultStore Fetched} (hst : w.repository.store = some known)
    (a : Step) : a.Honours s w known where
  adds c key value h := by
    have hrun := (run_of_call (s := s) h.call).2
    rw [hst, Call.stored_of_key h.keyed, h.absent, h.read] at hrun
    exact ⟨hrun, keys_set h.absent value c.ttl, Call.read_kind h.read⟩
  keeps h := by
    cases hc : a.call? w.repository.builder with
    | none => exact (store_run_of_no_call hc).trans hst
    | some c =>
      rw [(run_of_call hc).2, hst]
      cases hk : c.storeKey? s known.space with
      | none => exact (Call.stored_of_no_key hk).1
      | some key =>
        rw [Call.stored_of_key hk]
        cases hf : known.entries.find? key with
        | some entry => rfl
        | none =>
          cases hr : c.read s w.db with
          | error e => rfl
          | ok value => exact absurd ⟨hc, hk, hf, hr⟩ (h c key value)
  recalls c key entry hc hk hf := by
    refine ⟨_, (run_of_call hc).1, ?_⟩
    rw [hst, Call.stored_of_key hk, hf]
    exact Call.recalls_replyWith hk entry.1

end Step

namespace ResultStore

/-- A store holds all that another one holds, as it was stored. -/
structure Extends (later known : ResultStore Fetched) : Prop where
  space : later.space = known.space
  entry : ∀ key entry, known.entries.find? key = some entry → later.entries.find? key = some entry

theorem Extends.refl (known : ResultStore Fetched) : known.Extends known := ⟨rfl, fun _ _ h => h⟩

theorem Extends.trans {a b c : ResultStore Fetched} (h : a.Extends b) (h' : b.Extends c) :
    a.Extends c :=
  ⟨h.space.trans h'.space, fun key entry hf => h.entry key entry (h'.entry key entry hf)⟩

theorem extends_set {known : ResultStore Fetched} {key : String}
    (h : known.entries.find? key = none) (value : Fetched) (ttl : Option Nat) :
    (known.set key value ttl).Extends known := by
  refine ⟨rfl, fun k entry hk => ?_⟩
  have hne : k ≠ key := by
    rintro rfl
    rw [h] at hk
    cases hk
  rw [set, OrderedMap.find?_insert_of_ne _ _ hne, hk]

end ResultStore

namespace World

variable {s : Schema} {w : World} {known : ResultStore Fetched}

/-- A step keeps what the store holds. -/
theorem extends_step (hst : w.repository.store = some known) (a : Step) :
    ∃ later, (a.run s w).2.repository.store = some later ∧ later.Extends known := by
  -- an added key was absent, so it hides nothing
  have h := Step.honours (s := s) hst a
  by_cases hadds : ∃ c key value, a.Adds s w known c key value
  · obtain ⟨c, key, value, hadd⟩ := hadds
    exact ⟨_, (h.adds c key value hadd).1, ResultStore.extends_set hadd.absent value c.ttl⟩
  · exact ⟨known, h.keeps fun c key value hadd => hadds ⟨c, key, value, hadd⟩, .refl known⟩

/-- The world after some steps. -/
def after (s : Schema) (w : World) (steps : List Step) : World :=
  steps.foldl (fun v a => (a.run s v).2) w

/-- A run keeps what the store holds, and each step after it adds at most one key to the store and
answers what the store knows. -/
theorem honours_after (hst : w.repository.store = some known) (steps : List Step) :
    ∃ later, (w.after s steps).repository.store = some later ∧ later.Extends known ∧
      ∀ a : Step, a.Honours s (w.after s steps) later := by
  induction steps generalizing w known with
  | nil => exact ⟨known, hst, .refl known, Step.honours hst⟩
  | cons a steps ih =>
    obtain ⟨next, hnext, hextends⟩ := extends_step (s := s) hst a
    obtain ⟨later, hlater, hlextends, hhonours⟩ := ih hnext
    exact ⟨later, hlater, hlextends.trans hextends, hhonours⟩

/-- A user who is asked for by key, under a name. -/
def thirdUser : Descriptor where
  parameters := .ofList [("id", .integer 3)]
  cache := some { name := some "third" }

def users : Builder := ⟨Model.Blog.user, .builtIn, false, {}⟩

/-- The row of the user that the sample lacks. -/
def thirdRow : Write :=
  .insert "users" [("id", .integer 3), ("name", .text "carol"), ("email", .text "carol@example.com")]

theorem storeKey?_thirdUser :
    Call.storeKey? Model.sample "lens" ⟨users, true, thirdUser⟩ = some "lens:third:one" := by
  decide +kernel

theorem read_thirdUser :
    Call.read Model.sample Model.sampleRows ⟨users, true, thirdUser⟩ = .ok (.single none) := by
  have hroots : ((Call.planned Model.sample ⟨users, true, thirdUser⟩ >>= fun po =>
      Repository.loadUnsorted Model.sample Model.sampleRows po.1 po.2.1).toOption.map Prod.fst) =
        some [] := by
    decide +kernel
  obtain ⟨⟨roots, g⟩, hload, hnil⟩ := Option.map_eq_some_iff.mp hroots
  cases hnil
  obtain ⟨⟨p, o⟩, hplanned, hload⟩ := ok_of_bind (eq_ok_of_toOption hload)
  obtain ⟨q, hq, hrest⟩ := ok_of_bind hplanned
  obtain ⟨o', ho, hpo⟩ := ok_of_bind hrest
  cases hpo
  unfold Call.read
  rw [hplanned]
  simp only [bind, Except.bind, if_true, Repository.readOne]
  rw [Repository.load_planOf _ rfl hq ho, hload]

/-- The sample with a repository of users over a store. -/
def usersOver (known : ResultStore Fetched) : World := ⟨Model.sampleRows, ⟨users, some known⟩⟩

/-- A user that is not there is asked for, which stores that there is none. Then the user is inserted,
and there is still none when the same is asked again. -/
theorem recalls_thirdUser :
    ∃ known : ResultStore Fetched,
      ((Step.fetchOne (.descriptor thirdUser)).run Model.sample
        (usersOver {})).2.repository.store = some known ∧
      known.entries.keys = ["lens:third:one"] ∧
      (((usersOver known).after Model.sample [.write thirdRow]).db.rows "users").length = 3 ∧
      ((Step.fetchOne (.descriptor thirdUser)).run Model.sample
        ((usersOver known).after Model.sample [.write thirdRow])).1 = .fetched (.one (.ok none)) := by
  let c : Call := ⟨users, true, thirdUser⟩
  let known : ResultStore Fetched := ResultStore.set {} "lens:third:one" (.single none) none
  obtain ⟨empty, hempty, -, hfirst⟩ :=
    honours_after (s := Model.sample) (w := usersOver {}) rfl []
  obtain rfl : {} = empty := Option.some.inj hempty
  obtain ⟨hstore, hkeys, -⟩ := (hfirst (.fetchOne (.descriptor thirdUser))).adds c "lens:third:one"
    (.single none) ⟨rfl, storeKey?_thirdUser, rfl, read_thirdUser⟩
  obtain ⟨later, -, hextends, hagain⟩ :=
    honours_after (s := Model.sample) (w := usersOver known) rfl [.write thirdRow]
  have hkey : c.storeKey? Model.sample later.space = some "lens:third:one" := by
    rw [hextends.space]
    exact storeKey?_thirdUser
  have hentry : later.entries.find? "lens:third:one" = some (.single none, none) :=
    hextends.entry _ _ rfl
  obtain ⟨r, hr, hrecalls⟩ :=
    (hagain (.fetchOne (.descriptor thirdUser))).recalls c _ _ rfl hkey hentry
  exact ⟨known, hstore, hkeys, by decide +kernel, hr.trans (congrArg _ (hrecalls.single rfl))⟩

end World
end EntityQuery
