import EntityQuery.Repository
import EntityQuery.Proofs.Result
/-!
What the operations of a repository answer and leave in its store, apart from what they log. An
operation builds the plan, draws up the outline of its statement and then either recalls a result or
runs the query; the answers are given here as plain functions of descriptor, database and store.
-/
namespace EntityQuery

namespace Work

variable {α β : Type}

theorem run_bind (a : Work α) (f : α → Work β) (t : Session) :
    (a >>= f).run t = match a.run t with
      | (.ok x, u) => (f x).run u
      | (.error e, u) => (.error e, u) := by
  change (match a t with | (x, u) => ExceptT.bindCont f x u) = _
  rcases h : a t with ⟨x | x, u⟩
  all_goals
    have h' : a.run t = _ := h
    rw [h']
    rfl

theorem run_ofResult (x : Except QueryError α) (t : Session) : (ofResult x).run t = (x, t) := by
  cases x <;> rfl

theorem run_emit (lines : List LogLine) (t : Session) :
    (emit lines).run t = (.ok (), { t with log := t.log ++ lines }) := rfl

theorem run_get (t : Session) : (get : Work Session).run t = (.ok t, t) := rfl

theorem run_modify (f : Session → Session) (t : Session) :
    (modify f : Work PUnit).run t = (.ok ⟨⟩, f t) := rfl

/-- The work answers `x` and touches nothing but the log. -/
def Answers (a : Work α) (x : Except QueryError α) : Prop :=
  ∀ t, (a.run t).1 = x ∧ (a.run t).2.repository = t.repository

theorem answers_ofResult (x : Except QueryError α) : Answers (ofResult x) x := fun t => by
  rw [run_ofResult]
  exact ⟨rfl, rfl⟩

theorem Answers.bind {a : Work α} {x : Except QueryError α} {f : α → Work β}
    {y : α → Except QueryError β} (ha : Answers a x) (hf : ∀ v, Answers (f v) (y v)) :
    Answers (a >>= f) (x >>= y) := fun t => by
  obtain ⟨h1, h2⟩ := ha t
  rw [run_bind]
  rcases h : a.run t with ⟨v | v, u⟩
  all_goals
    rw [h] at h1 h2
    simp only at h1 h2
    subst h1
  · exact ⟨rfl, h2⟩
  · exact ⟨(hf v u).1, (hf v u).2.trans h2⟩

theorem answers_emit (lines : List LogLine) : Answers (emit lines) (.ok ()) :=
  fun _ => ⟨rfl, rfl⟩

theorem answers_pure (v : α) : Answers (pure v) (.ok v) := fun _ => ⟨rfl, rfl⟩

theorem answers_timed (label : String) (x : Except QueryError α) : Answers (timed label x) x :=
  fun t => by
    unfold timed
    rw [run_bind, run_emit]
    exact answers_ofResult x _

end Work

namespace Repository

open Work

/-- The plan that a repository makes of a descriptor. -/
def planOf (s : Schema) (r : Repository) (d : Descriptor) : Except QueryError Plan :=
  (Plan.build s r.builder.operators r.builder.root d).plan

/-- All matching roots, read from the database. -/
def readAll (s : Schema) (db : Database) (p : Plan) (h : Hydration) (o : Outline) :
    Except QueryError Fetched := do
  let (roots, g) ← load s db p o
  shape db p h g roots

/-- The matching root if there is exactly one, read from the database. -/
def readOne (s : Schema) (db : Database) (p : Plan) (h : Hydration) (o : Outline) :
    Except QueryError Fetched := do
  let (roots, g) ← load s db p o
  match roots with
  | [key] => do
    let items ← hydrate db p h g [key]
    .ok (.single items.head?)
  | _ => .ok (.single none)

/-- What a query gives by way of a store, and the store after it; `read` is what the database
gives. -/
def readThrough (store : Option (ResultStore Fetched)) (d : Descriptor) (p : Plan) (o : Outline)
    (kind : String) (read : Except QueryError Fetched) :
    Except QueryError Fetched × Option (ResultStore Fetched) :=
  match d.cache, store with
  | some c, some known => match resultKey known.space d c p o kind with
    | .error e => (.error e, store)
    | .ok key => match known.entries.find? key with
      | some entry => (.ok entry.1, store)
      | none => match read with
        | .error e => (.error e, store)
        | .ok value => (.ok value, some (known.set key value c.ttl))
  | _, _ => (read, store)

theorem answers_runAll (s : Schema) (db : Database) (p : Plan) (h : Hydration) (o : Outline) :
    Answers (runAll s db p h o) (readAll s db p h o) :=
  (answers_timed _ _).bind fun v => answers_ofResult (shape db p h v.2 v.1)

theorem answers_runOne (s : Schema) (db : Database) (p : Plan) (h : Hydration) (o : Outline) :
    Answers (runOne s db p h o) (readOne s db p h o) :=
  (answers_ofResult _).bind fun v => by
    rcases v with ⟨_ | ⟨key, _ | ⟨k, ks⟩⟩, g⟩
    · exact answers_pure _
    · exact (answers_ofResult _).bind fun items => answers_pure _
    · exact answers_pure _

theorem answers_runCount (s : Schema) (db : Database) (p : Plan) :
    Answers (runCount s db p) (countRows s db p) := answers_timed _ _

/-- The outcome of an operation in a session: what it answers, and the store it leaves. The root and
the operators of the repository stay. -/
structure Outcome {α : Type} (a : Work α) (t : Session) (x : Except QueryError α)
    (store : Option (ResultStore Fetched)) : Prop where
  answer : (a.run t).1 = x
  store : (a.run t).2.repository.store = store
  root : (a.run t).2.repository.builder.root = t.repository.builder.root
  operators : (a.run t).2.repository.builder.operators = t.repository.builder.operators

theorem Outcome.bind_ok {α β : Type} {a : Work α} {f : α → Work β} {t : Session} {v : α}
    {store later : Option (ResultStore Fetched)} {y : Except QueryError β}
    (ha : Outcome a t (.ok v) store)
    (hf : ∀ u : Session, u.repository.store = store → Outcome (f v) u y later) :
    Outcome (a >>= f) t y later := by
  have hb := hf _ ha.store
  have hrun : (a >>= f).run t = (f v).run (a.run t).2 := by
    have h := ha.answer
    rw [run_bind]
    rcases hx : a.run t with ⟨x | x, u⟩
    all_goals
      rw [hx] at h
      cases h
    rfl
  refine ⟨?_, ?_, ?_, ?_⟩ <;> rw [hrun]
  · exact hb.answer
  · exact hb.store
  · exact hb.root.trans ha.root
  · exact hb.operators.trans ha.operators

theorem Outcome.bind_error {α β : Type} {a : Work α} {f : α → Work β} {t : Session}
    {e : QueryError} {store : Option (ResultStore Fetched)}
    (ha : Outcome a t (.error e) store) : Outcome (a >>= f) t (.error e) store := by
  have hrun : (a >>= f).run t = (.error e, (a.run t).2) := by
    rw [run_bind]
    rcases h : a.run t with ⟨x | x, u⟩
    · have := ha.answer
      rw [h] at this
      cases this
      rfl
    · have := ha.answer
      rw [h] at this
      cases this
  refine ⟨?_, ?_, ?_, ?_⟩ <;> rw [hrun]
  · exact ha.store
  · exact ha.root
  · exact ha.operators

theorem Outcome.of_answers {α : Type} {a : Work α} {x : Except QueryError α} (ha : Answers a x)
    {t : Session} {store : Option (ResultStore Fetched)} (hst : t.repository.store = store) :
    Outcome a t x store := by
  obtain ⟨h1, h2⟩ := ha t
  exact ⟨h1, by rw [h2, hst], by rw [h2], by rw [h2]⟩

/-- Drawing up a plan answers with the plan and keeps the store. -/
theorem outcome_plan (s : Schema) (d : Descriptor) (operation : String) (allowsNone : Bool)
    (t : Session) :
    Outcome (plan s (.descriptor d) operation allowsNone) t
      ((planOf s t.repository d).map fun p => (d, p)) t.repository.store := by
  have hrun : (plan s (.descriptor d) operation allowsNone).run t =
      ((planOf s t.repository d).map fun p => (d, p),
        { t with
          repository :=
            { t.repository with builder := (t.repository.builder.build s d).2 }
          log := t.log ++ (t.repository.builder.build s d).1.log }) := by
    simp only [plan, run_bind, run_ofResult, QueryInput.resolve, run_get, run_modify, run_emit]
    rcases h : planOf s t.repository d with e | p
    · have h' : (t.repository.builder.build s d).1.plan = .error e := h
      rw [h']
      rfl
    · have h' : (t.repository.builder.build s d).1.plan = .ok p := h
      rw [h']
      rfl
  refine ⟨?_, ?_, ?_, ?_⟩ <;> rw [hrun] <;> rfl

/-- Keeping a value adds it to the store. -/
theorem outcome_keep {known : ResultStore Fetched} {t : Session} (key : String) (value : Fetched)
    (ttl : Option Nat) (hst : t.repository.store = some known) :
    Outcome (do
      modify fun s =>
        { s with repository := { s.repository with
            store := s.repository.store.map fun r => r.set key value ttl } }
      return value) t (.ok value) (some (known.set key value ttl)) := by
  refine ⟨rfl, ?_, rfl, rfl⟩
  change t.repository.store.map _ = _
  rw [hst]
  rfl

/-- Reading through the store answers what is known and keeps what is read. -/
theorem outcome_execute (d : Descriptor) (p : Plan) (o : Outline) (kind : String)
    {run : Work Fetched} {read : Except QueryError Fetched} (hr : Answers run read) {t : Session}
    {store : Option (ResultStore Fetched)} (hst : t.repository.store = store) :
    Outcome (execute d p o kind run) t (readThrough store d p o kind read).1
      (readThrough store d p o kind read).2 := by
  unfold execute readThrough
  cases d.cache with
  | none => exact .of_answers hr hst
  | some c =>
    have hget : Outcome get t (.ok t) store := ⟨rfl, hst, rfl, rfl⟩
    apply hget.bind_ok
    intro u hu
    cases store with
    | none =>
      simp only [hst]
      exact (Outcome.of_answers (answers_emit _) hu).bind_ok fun _ hv => .of_answers hr hv
    | some known =>
      simp only [hst]
      have hk := Outcome.of_answers (answers_ofResult (resultKey known.space d c p o kind)) hu
      cases h : resultKey known.space d c p o kind with
      | error e =>
        rw [h] at hk
        exact hk.bind_error
      | ok key =>
        rw [h] at hk
        apply hk.bind_ok
        intro v hv
        unfold ResultStore.get
        apply (Outcome.of_answers (answers_emit _) hv).bind_ok
        intro w hw
        cases hf : known.entries.find? key with
        | some entry =>
          simp only [hf]
          exact .of_answers (answers_pure _) hw
        | none =>
          simp only [hf]
          cases read with
          | error e => exact (Outcome.of_answers hr hw).bind_error
          | ok value =>
            exact (Outcome.of_answers hr hw).bind_ok fun _ hx => outcome_keep key value c.ttl hx

/-- What a fetch of all matches answers in a repository, and the store it leaves. -/
def answerAll (s : Schema) (db : Database) (r : Repository) (d : Descriptor) :
    Except QueryError Answer × Option (ResultStore Fetched) :=
  match planOf s r d with
  | .error e => (.error e, r.store)
  | .ok p => match p.outline with
    | .error e => (.error e, r.store)
    | .ok o =>
      let (fetched, store) := readThrough r.store d p o "all" (readAll s db p d.hydration o)
      (do
        let items ← fetched
        if d.countAvailableRows then
          let total ← countRows s db p
          .ok (.page
            { items := items, total := total, limit := d.limit.map Int.ofNat,
              offset := d.offset.map Int.ofNat })
        else .ok (.plain items), store)

/-- A fetch of at most one match, as what it answers and the store it leaves. -/
def answerOne (s : Schema) (db : Database) (r : Repository) (d : Descriptor) :
    Except QueryError (Option Item) × Option (ResultStore Fetched) :=
  match planOf s r d with
  | .error e => (.error e, r.store)
  | .ok p => match p.outline with
    | .error e => (.error e, r.store)
    | .ok o =>
      let (fetched, store) := readThrough r.store d p o "one" (readOne s db p d.hydration o)
      (fetched.map fun
        | .single item => item
        | .list items => items.head?
        | .indexed entries => entries.head?.map Prod.snd, store)

/-- What a count answers. -/
def answerCount (s : Schema) (db : Database) (r : Repository) (d : Descriptor) :
    Except QueryError Nat := do
  let p ← planOf s r d
  countRows s db p

theorem outcome_fetchAll (s : Schema) (db : Database) (d : Descriptor) (t : Session) :
    Outcome (fetchAll s db (.descriptor d)) t (answerAll s db t.repository d).1
      (answerAll s db t.repository d).2 := by
  have hplan := outcome_plan s d "fetch_all" false t
  unfold fetchAll answerAll
  cases hp : planOf s t.repository d with
  | error e =>
    rw [hp] at hplan
    exact hplan.bind_error
  | ok p =>
    rw [hp] at hplan
    apply hplan.bind_ok
    intro u hu
    dsimp only
    have hout := Outcome.of_answers (answers_ofResult p.outline) hu
    cases ho : p.outline with
    | error e =>
      rw [ho] at hout
      exact hout.bind_error
    | ok o =>
      rw [ho] at hout
      apply hout.bind_ok
      intro v hv
      dsimp only
      have hexec := outcome_execute d p o "all" (answers_runAll s db p d.hydration o) hv
      rcases hr : readThrough t.repository.store d p o "all" (readAll s db p d.hydration o) with
        ⟨e | items, store⟩
      all_goals rw [hr] at hexec
      · exact hexec.bind_error
      · apply hexec.bind_ok
        intro w hw
        by_cases hc : d.countAvailableRows
        · simp only [hc, if_true]
          have hn := Outcome.of_answers (answers_runCount s db p) hw
          cases hcount : countRows s db p with
          | error e =>
            rw [hcount] at hn
            exact hn.bind_error
          | ok total =>
            rw [hcount] at hn
            exact hn.bind_ok fun _ hx => .of_answers (answers_pure _) hx
        · simp only [hc]
          exact .of_answers (answers_pure _) hw

theorem run_fetchAll (s : Schema) (db : Database) (r : Repository) (d : Descriptor) :
    (run r (fetchAll s db (.descriptor d))).1 = (answerAll s db r d).1 :=
  (outcome_fetchAll s db d ⟨r, []⟩).answer

theorem outcome_fetchOne (s : Schema) (db : Database) (d : Descriptor) (t : Session) :
    Outcome (fetchOne s db (.descriptor d)) t (answerOne s db t.repository d).1
      (answerOne s db t.repository d).2 := by
  have hplan := outcome_plan s d "fetch_one" false t
  unfold fetchOne answerOne
  cases hp : planOf s t.repository d with
  | error e =>
    rw [hp] at hplan
    exact hplan.bind_error
  | ok p =>
    rw [hp] at hplan
    apply hplan.bind_ok
    intro u hu
    dsimp only
    have hout := Outcome.of_answers (answers_ofResult p.outline) hu
    cases ho : p.outline with
    | error e =>
      rw [ho] at hout
      exact hout.bind_error
    | ok o =>
      rw [ho] at hout
      apply hout.bind_ok
      intro v hv
      dsimp only
      have hexec := outcome_execute d p o "one" (answers_runOne s db p d.hydration o) hv
      rcases hr : readThrough t.repository.store d p o "one" (readOne s db p d.hydration o) with
        ⟨e | fetched, store⟩
      all_goals rw [hr] at hexec
      · exact hexec.bind_error
      · apply hexec.bind_ok
        intro w hw
        cases fetched <;> exact .of_answers (answers_pure _) hw

theorem outcome_count (s : Schema) (db : Database) (d : Descriptor) (t : Session) :
    Outcome (count s db (.descriptor d)) t (answerCount s db t.repository d)
      t.repository.store := by
  have hplan := outcome_plan s d "count" true t
  unfold count answerCount
  cases hp : planOf s t.repository d with
  | error e =>
    rw [hp] at hplan
    exact hplan.bind_error
  | ok p =>
    rw [hp] at hplan
    exact hplan.bind_ok fun _ hu => .of_answers (answers_runCount s db p) hu

/-- Nothing that the store holds can answer the descriptor: it asks for no cache, or there is no
store, or the store holds nothing under its key. -/
def ReadsAfresh (r : Repository) (d : Descriptor) : Prop :=
  ∀ c known, d.cache = some c → r.store = some known → ∀ p o kind key,
    resultKey known.space d c p o kind = .ok key → known.entries.find? key = none

theorem readsAfresh_of_uncached {r : Repository} {d : Descriptor} (h : d.cache = none) :
    r.ReadsAfresh d := fun _ _ hc => by
  rw [h] at hc
  cases hc

theorem readAll_eq_ok {s : Schema} {db : Database} {p : Plan} {h : Hydration} {o : Outline}
    {fetched : Fetched} (hr : readAll s db p h o = .ok fetched) :
    ∃ roots g, load s db p o = .ok (roots, g) ∧ shape db p h g roots = .ok fetched := by
  obtain ⟨⟨roots, g⟩, hload, hshape⟩ := ok_of_bind hr
  exact ⟨roots, g, hload, hshape⟩

/-- What a fetch reads where the store does not answer. -/
theorem readThrough_eq_ok {r : Repository} {d : Descriptor} (hf : r.ReadsAfresh d) {p : Plan}
    {o : Outline} {kind : String} {read : Except QueryError Fetched} {fetched : Fetched}
    (h : (readThrough r.store d p o kind read).1 = .ok fetched) : read = .ok fetched := by
  unfold readThrough at h
  split at h
  · rename_i c known hc hst
    split at h
    · cases h
    · rename_i key hkey
      rw [hf c known hc hst p o kind key hkey] at h
      cases read with
      | error e => cases h
      | ok value => exact h
  · exact h

/-- Where the store does not answer, the query gives what it reads. -/
theorem readThrough_of_fresh {r : Repository} {d : Descriptor} (hf : r.ReadsAfresh d) {p : Plan}
    {o : Outline} {selection : Plan.Selection} (hsel : p.assemble o.1 o.2 = .ok selection)
    (kind : String) (fetched : Fetched) :
    (readThrough r.store d p o kind (.ok fetched)).1 = .ok fetched := by
  unfold readThrough
  split
  · rename_i c known hc hst
    split
    · rename_i e hkey
      unfold resultKey at hkey
      rw [hsel] at hkey
      split at hkey <;> cases hkey
    · rename_i key hkey
      rw [hf c known hc hst p o kind key hkey]
  · rfl

/-- The stages of a fetch of all matches that succeeds. -/
theorem fetchAll_eq_ok {s : Schema} {db : Database} {r : Repository} {d : Descriptor}
    (hf : r.ReadsAfresh d) {a : Answer} (h : (run r (fetchAll s db (.descriptor d))).1 = .ok a) :
    ∃ p o roots g items, planOf s r d = .ok p ∧ p.outline = .ok o ∧
      load s db p o = .ok (roots, g) ∧ shape db p d.hydration g roots = .ok items ∧
      (d.countAvailableRows = false ∧ a = .plain items ∨
        d.countAvailableRows = true ∧ ∃ total, countRows s db p = .ok total ∧
          a = .page { items := items, total := total, limit := d.limit.map Int.ofNat,
                      offset := d.offset.map Int.ofNat }) := by
  have ha : (answerAll s db r d).1 = .ok a := (run_fetchAll s db r d).symm.trans h
  unfold answerAll at ha
  cases hp : planOf s r d with
  | error e =>
    rw [hp] at ha
    cases ha
  | ok p =>
    rw [hp] at ha
    cases ho : p.outline with
    | error e =>
      simp only [ho] at ha
      cases ha
    | ok o =>
      simp only [ho] at ha
      obtain ⟨items, hitems, hend⟩ := ok_of_bind ha
      obtain ⟨roots, g, hload, hshape⟩ := readAll_eq_ok (readThrough_eq_ok hf hitems)
      refine ⟨p, o, roots, g, items, rfl, ho, hload, hshape, ?_⟩
      by_cases hc : d.countAvailableRows = true
      · rw [if_pos hc] at hend
        obtain ⟨total, htotal, he⟩ := ok_of_bind hend
        exact .inr ⟨hc, total, htotal, (Except.ok.inj he).symm⟩
      · rw [if_neg hc] at hend
        exact .inl ⟨by simpa using hc, (Except.ok.inj hend).symm⟩

/-- The stages of a count that succeeds. -/
theorem count_eq_ok {s : Schema} {db : Database} {r : Repository} {d : Descriptor} {n : Nat}
    (h : (run r (count s db (.descriptor d))).1 = .ok n) :
    ∃ p, planOf s r d = .ok p ∧ countRows s db p = .ok n :=
  ok_of_bind ((outcome_count s db d ⟨r, []⟩).answer.symm.trans h)

/-- The stages of loading. -/
theorem load_eq_ok {s : Schema} {db : Database} {p : Plan} {o : Outline}
    {out : List EntityKey × Graph} (h : load s db p o = .ok out) :
    ∃ selection, p.assemble o.1 o.2 = .ok selection ∧ selection.select.check s = .ok () ∧
      loadRows s selection.tree (selection.select.rows db) = .ok out := by
  obtain ⟨selection, hsel, h⟩ := ok_of_bind h
  obtain ⟨rows, hrows, h⟩ := ok_of_bind h
  obtain ⟨⟨⟩, hcheck, rfl⟩ := ok_of_map hrows
  exact ⟨selection, hsel, hcheck, h⟩

theorem outline_eq_ok {p : Plan} {o : Outline} (h : p.outline = .ok o) :
    p.resolveJoins = .ok o.1 ∧ p.orderColumns = .ok o.2 := by
  obtain ⟨joins, hj, h⟩ := ok_of_bind h
  obtain ⟨⟨⟩, -, h⟩ := ok_of_bind h
  obtain ⟨order, ho, h⟩ := ok_of_bind h
  cases h
  exact ⟨hj, ho⟩

end Repository

theorem unfoldItems_length {record : Graph → EntityKey → Except QueryError (Value × Graph)}
    {g h : Graph} {keys : List EntityKey} {vs : List Value}
    (hu : unfoldItems record g keys = .ok (vs, h)) : vs.length = keys.length := by
  induction keys generalizing g vs with
  | nil =>
    cases hu
    rfl
  | cons k ks ih =>
    obtain ⟨⟨v, g'⟩, -, hu⟩ := ok_of_bind hu
    obtain ⟨⟨vs', g''⟩, hrest, hu⟩ := ok_of_bind hu
    cases hu
    simp [ih hrest]

namespace Repository

/-- There is one item for each root. -/
theorem hydrate_length {db : Database} {p : Plan} {h : Hydration} {g : Graph}
    {roots : List EntityKey} {items : List Item} (hh : hydrate db p h g roots = .ok items) :
    items.length = roots.length := by
  cases h with
  | entities => exact (mapM_eq_ok_iff.mp hh).length_eq.symm
  | records =>
    obtain ⟨⟨vs, g'⟩, hvs, rfl⟩ := ok_of_map hh
    simpa using unfoldItems_length hvs

theorem shape_eq_ok {db : Database} {p : Plan} {h : Hydration} {g : Graph}
    {roots : List EntityKey} {fetched : Fetched} (hi : p.indexBy = none)
    (hs : shape db p h g roots = .ok fetched) :
    ∃ items, fetched = .list items ∧ hydrate db p h g roots = .ok items := by
  unfold shape at hs
  rw [hi] at hs
  obtain ⟨items, hitems, rfl⟩ := ok_of_map hs
  exact ⟨items, rfl, hitems⟩

end Repository

/-- The first item of a result, if there is one. -/
def Fetched.first? : Fetched → Option Item
  | .single item => item
  | .list items => items.head?
  | .indexed entries => entries.head?.map Prod.snd

namespace Repository

/-! ### Results that there are -/

variable {s : Schema} {db : Database} {p : Plan} {r : Repository} {d : Descriptor}

/-- Where the store does not answer, a query gives what it reads, if it reads only by its selection. -/
theorem readThrough_fst (hf : r.ReadsAfresh d) {o : Outline} {read : Except QueryError Fetched}
    (hread : ∀ e, p.assemble o.1 o.2 = .error e → read = .error e) (kind : String) :
    (readThrough r.store d p o kind read).1 = read := by
  unfold readThrough
  split
  · rename_i c known hc hst
    cases hkey : resultKey known.space d c p o kind with
    | error e =>
      unfold resultKey at hkey
      split at hkey
      · cases hkey
      · cases hselection : p.assemble o.1 o.2 with
        | error e' =>
          rw [hselection] at hkey
          cases hkey
          exact (hread e hselection).symm
        | ok selection =>
          rw [hselection] at hkey
          cases hkey
    | ok key =>
      dsimp only
      rw [hf c known hc hst p o kind key hkey]
      cases read <;> rfl
  · rfl

theorem load_of_assemble_error {o : Outline} {e : QueryError} (h : p.assemble o.1 o.2 = .error e) :
    load s db p o = .error e := by
  unfold load
  rw [h]
  rfl

/-- The answer to a fetch of all matches: their items, or a page of them. -/
def answered (s : Schema) (db : Database) (d : Descriptor) (p : Plan) (items : Fetched) :
    Except QueryError Answer :=
  if d.countAvailableRows then
    (countRows s db p).map fun total : Nat => .page
      { items := items, total := total, limit := d.limit.map Int.ofNat, offset := d.offset.map Int.ofNat }
  else .ok (.plain items)

/-- What a fetch of all matches gives where the store does not answer. -/
theorem fetchAll_afresh (s : Schema) (db : Database) (hf : r.ReadsAfresh d) :
    (run r (fetchAll s db (.descriptor d))).1 =
      planOf s r d >>= fun p => p.outline >>= fun o =>
        readAll s db p d.hydration o >>= answered s db d p := by
  rw [run_fetchAll]
  unfold answerAll
  cases planOf s r d with
  | error e => rfl
  | ok p =>
    change _ = p.outline >>= _
    dsimp only
    cases p.outline with
    | error e => rfl
    | ok o =>
      change _ = readAll s db p d.hydration o >>= _
      dsimp only
      rw [readThrough_fst hf (fun e he => by
        unfold readAll
        rw [load_of_assemble_error he]
        rfl) "all"]
      refine congrArg _ (funext fun items => ?_)
      unfold answered
      split
      · cases countRows s db p <;> rfl
      · rfl

theorem toOption_fetchAll (s : Schema) (db : Database) (hf : r.ReadsAfresh d) :
    (run r (fetchAll s db (.descriptor d))).1.toOption =
      (planOf s r d).toOption.bind fun p => p.outline.toOption.bind fun o =>
        (readAll s db p d.hydration o).toOption.bind fun items =>
          if d.countAvailableRows then
            (countRows s db p).toOption.map fun total => .page
              { items := items, total := total, limit := d.limit.map Int.ofNat,
                offset := d.offset.map Int.ofNat }
          else some (.plain items) := by
  rw [fetchAll_afresh s db hf]
  simp only [toOption_bind]
  refine congrArg _ (funext fun p => congrArg _ (funext fun o => congrArg _ (funext fun items => ?_)))
  unfold answered
  split
  · exact toOption_map _ _
  · rfl

/-- What a fetch of at most one match gives where the store does not answer. -/
theorem toOption_fetchOne (s : Schema) (db : Database) (hf : r.ReadsAfresh d) :
    (run r (fetchOne s db (.descriptor d))).1.toOption =
      (planOf s r d).toOption.bind fun p => p.outline.toOption.bind fun o =>
        (readOne s db p d.hydration o).toOption.map Fetched.first? := by
  have hanswer : (run r (fetchOne s db (.descriptor d))).1 = (answerOne s db r d).1 :=
    (outcome_fetchOne s db d ⟨r, []⟩).answer
  rw [hanswer]
  unfold answerOne
  cases planOf s r d with
  | error e => rfl
  | ok p =>
    change _ = p.outline.toOption.bind _
    dsimp only
    cases p.outline with
    | error e => rfl
    | ok o =>
      change (Except.map Fetched.first? _).toOption = _
      rw [toOption_map, readThrough_fst hf (fun e he => by
        unfold readOne
        rw [load_of_assemble_error he]
        rfl) "one"]
      rfl

theorem toOption_count (s : Schema) (db : Database) (r : Repository) (d : Descriptor) :
    (run r (count s db (.descriptor d))).1.toOption =
      (planOf s r d).toOption.bind fun p => (countRows s db p).toOption := by
  have hanswer : (run r (count s db (.descriptor d))).1 = answerCount s db r d :=
    (outcome_count s db d ⟨r, []⟩).answer
  rw [hanswer]
  exact toOption_bind _ _

end Repository
end EntityQuery
