import Mathlib
import EntityQuery.Model.Sample
import EntityQuery.Proofs.Unsorted
/-!
Calls that share a store of results. A store only ever holds what calls have read, under the digests of
their payloads. So calls through a store answer as they do without one exactly if calls with one
payload can be answered with each other's results.
-/
namespace EntityQuery

/-- A call of a repository: its builder, whether it fetches at most one match, and what it asks for. -/
structure Call where
  builder : Builder
  one : Bool
  descriptor : Descriptor

/-- What a call answers. -/
inductive Reply where
  | all (a : Except QueryError Answer)
  | one (a : Except QueryError (Option Item))

namespace Call

open Repository

variable (s : Schema) (db : Database)

/-- A call on a store: what it answers, and the store after it. -/
def send (store : Option (ResultStore Fetched)) (c : Call) :
    Reply × Option (ResultStore Fetched) :=
  if c.one then
    let out := run ⟨c.builder, store⟩ (fetchOne s db (.descriptor c.descriptor))
    (.one out.1, out.2.repository.store)
  else
    let out := run ⟨c.builder, store⟩ (fetchAll s db (.descriptor c.descriptor))
    (.all out.1, out.2.repository.store)

/-- Calls on one store, one after the other. -/
def sendAll (store : Option (ResultStore Fetched)) : List Call → List Reply
  | [] => []
  | c :: cs => (c.send s db store).1 :: sendAll (c.send s db store).2 cs

/-- The same call without its cache option. -/
def uncached (c : Call) : Call := { c with descriptor := { c.descriptor with cache := none } }

/-- The call asks for a cache and gives no name. -/
def Computed (c : Call) : Prop :=
  ∃ o, c.descriptor.cache = some o ∧ o.name.filter (fun name => !name.isEmpty) = none

/-- The plan of a call and its outline. -/
def planned (c : Call) : Except QueryError (Plan × Outline) := do
  let p ← planOf s ⟨c.builder, none⟩ c.descriptor
  let o ← p.outline
  .ok (p, o)

/-- What a call reads from the database. -/
def read (c : Call) : Except QueryError Fetched := do
  let (p, o) ← c.planned s
  if c.one then readOne s db p c.descriptor.hydration o
  else readAll s db p c.descriptor.hydration o

/-- What a call answers once it has its result. -/
def replyWith (c : Call) (fetched : Except QueryError Fetched) : Reply :=
  if c.one then
    .one do
      let _ ← c.planned s
      let f ← fetched
      .ok (match f with
        | .single item => item
        | .list items => items.head?
        | .indexed entries => entries.head?.map Prod.snd)
  else
    .all do
      let (p, _) ← c.planned s
      let items ← fetched
      if c.descriptor.countAvailableRows then
        let total ← countRows s db p
        .ok (.page
          { items := items, total := total, limit := c.descriptor.limit.map Int.ofNat,
            offset := c.descriptor.offset.map Int.ofNat })
      else .ok (.plain items)

def kind (c : Call) : String := if c.one then "one" else "all"

/-- The selection of a call, and what shapes its result beside the statement. -/
def keyed (c : Call) : Except QueryError (Select × List Value) := do
  let (p, o) ← c.planned s
  let selection ← p.assemble o.1 o.2
  .ok (selection.select, keyParts c.descriptor p)

/-- What the key of a call is the digest of. -/
def payload (c : Call) : Except QueryError String :=
  (c.keyed s).map fun k => ResultStore.payload k.1.statementText c.kind k.2

/-- The key of a call in a store. -/
def key (space : String) (c : Call) : Except QueryError String :=
  (c.payload s).map fun t => space ++ ":" ++ Digest.ofText t

/-- The result that a call gets by way of a store, and the store after it. -/
def stored (store : Option (ResultStore Fetched)) (c : Call) :
    Except QueryError Fetched × Option (ResultStore Fetched) :=
  match c.planned s with
  | .error e => (.error e, store)
  | .ok (p, o) => readThrough store c.descriptor p o c.kind
      (if c.one then readOne s db p c.descriptor.hydration o
       else readAll s db p c.descriptor.hydration o)

variable {s db}

theorem send_eq (store : Option (ResultStore Fetched)) (c : Call) :
    c.send s db store = (c.replyWith s db (c.stored s db store).1, (c.stored s db store).2) := by
  obtain ⟨b, one, d⟩ := c
  have hplan : planOf s ⟨b, store⟩ d = planOf s ⟨b, none⟩ d := rfl
  cases one with
  | true =>
    have hout := outcome_fetchOne s db d ⟨⟨b, store⟩, []⟩
    refine Prod.ext (congrArg Reply.one (hout.answer.trans ?_)) (hout.store.trans ?_)
    all_goals
      simp only [answerOne, stored, planned, hplan, kind, if_true]
      cases planOf s ⟨b, none⟩ d with
      | error e => rfl
      | ok p =>
        simp only [bind, Except.bind]
        cases p.outline with
        | error e => rfl
        | ok o =>
          simp only
          try rcases (readThrough store d p o "one" (readOne s db p d.hydration o)).1 with e | f <;> rfl
  | false =>
    have hout := outcome_fetchAll s db d ⟨⟨b, store⟩, []⟩
    refine Prod.ext (congrArg Reply.all (hout.answer.trans ?_)) (hout.store.trans ?_)
    all_goals
      simp only [answerAll, stored, planned, hplan, kind, Bool.false_eq_true, if_false]
      cases planOf s ⟨b, none⟩ d with
      | error e => rfl
      | ok p =>
        simp only [bind, Except.bind]
        cases p.outline with
        | error e => rfl
        | ok o => rfl

/-- Without its cache option a call answers with what it reads. -/
theorem send_uncached (store : Option (ResultStore Fetched)) (c : Call) :
    (c.uncached.send s db store).1 = c.replyWith s db (c.read s db) := by
  have hplanned : c.uncached.planned s = c.planned s := rfl
  rw [send_eq]
  unfold stored read
  rw [hplanned]
  unfold replyWith
  rw [hplanned]
  cases c.planned s with
  | error e => rfl
  | ok po => rfl

/-- What cannot be given a key cannot be read. -/
theorem read_of_key_error {space : String} {c : Call} {e : QueryError}
    (h : c.key s space = .error e) : c.read s db = .error e := by
  unfold key payload keyed at h
  unfold read
  cases hp : c.planned s with
  | error e' =>
    rw [hp] at h
    cases h
    rfl
  | ok po =>
    rw [hp] at h
    simp only [bind, Except.bind] at h ⊢
    cases hsel : po.1.assemble po.2.1 po.2.2 with
    | error e' =>
      rw [hsel] at h
      cases h
      unfold readOne readAll load
      simp only [hsel, bind, Except.bind, ite_self]
    | ok selection =>
      rw [hsel] at h
      cases h

/-- A call without a name goes through the store under its key. -/
theorem stored_computed (s : Schema) (db : Database) {c : Call} (hc : c.Computed)
    (known : ResultStore Fetched) :
    ∃ ttl, c.stored s db (some known) = match c.key s known.space with
      | .error e => (.error e, some known)
      | .ok k => match known.entries.find? k with
        | some entry => (.ok entry.1, some known)
        | none => match c.read s db with
          | .error e => (.error e, some known)
          | .ok v => (.ok v, some (known.set k v ttl)) := by
  obtain ⟨o, hcache, hname⟩ := hc
  refine ⟨o.ttl, ?_⟩
  unfold stored key payload keyed read
  cases c.planned s with
  | error e => rfl
  | ok po =>
    simp only [bind, Except.bind]
    unfold readThrough resultKey
    simp only [hcache, hname]
    cases po.1.assemble po.2.1 po.2.2 with
    | error e => rfl
    | ok selection => rfl

/-- Keys are the same exactly if the digests of the payloads are. -/
theorem key_eq_iff {space t u : String} :
    space ++ ":" ++ Digest.ofText t = space ++ ":" ++ Digest.ofText u ↔
      Digest.ofText t = Digest.ofText u := by
  refine ⟨fun h => ?_, fun h => by rw [h]⟩
  have hlist := congrArg String.toList h
  simp only [String.toList_append] at hlist
  exact String.toList_inj.mp (List.append_cancel_left hlist)

variable {K : Call → Prop}

/-- Everything that a store holds was read by some call under its key. -/
def Holds (s : Schema) (db : Database) (K : Call → Prop) (known : ResultStore Fetched) : Prop :=
  ∀ k entry, known.entries.find? k = some entry →
    ∃ c, K c ∧ c.key s known.space = .ok k ∧ c.read s db = .ok entry.1

theorem holds_empty (space : String) : Holds s db K ⟨space, .empty⟩ := fun k entry h => by
  simp [OrderedMap.find?] at h

/-- A call leaves a store that holds only what was read. -/
theorem holds_stored {known : ResultStore Fetched} (h : Holds s db K known) {c : Call}
    (hK : K c) (hc : c.Computed) : ∃ later, (c.stored s db (some known)).2 = some later ∧
      later.space = known.space ∧ Holds s db K later := by
  obtain ⟨ttl, hstored⟩ := stored_computed s db hc known
  rw [hstored]
  cases hk : c.key s known.space with
  | error e => exact ⟨known, rfl, rfl, h⟩
  | ok k =>
    cases hf : known.entries.find? k with
    | some entry =>
      simp only [hf]
      exact ⟨known, rfl, rfl, h⟩
    | none =>
      simp only [hf]
      cases hr : c.read s db with
      | error e => exact ⟨known, rfl, rfl, h⟩
      | ok v =>
        refine ⟨_, rfl, rfl, fun k' entry hentry => ?_⟩
        by_cases hkk : k' = k
        · subst hkk
          rw [ResultStore.set, OrderedMap.find?_insert_self] at hentry
          cases hentry
          exact ⟨c, hK, hk, hr⟩
        · rw [ResultStore.set, OrderedMap.find?_insert_of_ne _ _ hkk] at hentry
          exact h k' entry hentry

/-- The result of a call is what it reads, or what another call has read under the same key. -/
theorem stored_eq {known : ResultStore Fetched} (h : Holds s db K known) {c : Call}
    (hc : c.Computed) : (c.stored s db (some known)).1 = c.read s db ∨
      ∃ a k v, K a ∧ a.key s known.space = .ok k ∧ c.key s known.space = .ok k ∧
        a.read s db = .ok v ∧ (c.stored s db (some known)).1 = .ok v := by
  obtain ⟨ttl, hstored⟩ := stored_computed s db hc known
  rw [hstored]
  cases hk : c.key s known.space with
  | error e => exact .inl (read_of_key_error hk).symm
  | ok k =>
    cases hf : known.entries.find? k with
    | some entry =>
      obtain ⟨a, hKa, hka, hra⟩ := h k entry hf
      refine .inr ⟨a, k, entry.1, hKa, hka, rfl, hra, ?_⟩
      simp only [hf]
    | none =>
      left
      simp only [hf]
      cases c.read s db <;> rfl

theorem key_of_payload {space t : String} {c : Call} (h : c.payload s = .ok t) :
    c.key s space = .ok (space ++ ":" ++ Digest.ofText t) := by
  unfold key
  rw [h]
  rfl

/-- Of two calls with one key the second is answered with the result of the first. -/
theorem sendAll_pair (space : String) {c c' : Call} (hc : c.Computed) (hc' : c'.Computed)
    {k : String} (hk : c.key s space = .ok k) (hk' : c'.key s space = .ok k) {v : Fetched}
    (hv : c.read s db = .ok v) :
    sendAll s db (some ⟨space, .empty⟩) [c, c'] =
      [c.replyWith s db (.ok v), c'.replyWith s db (.ok v)] := by
  obtain ⟨ttl, hfirst⟩ := stored_computed s db hc ⟨space, .empty⟩
  simp only [hk, OrderedMap.find?, OrderedMap.entries_empty, List.lookup_nil, hv] at hfirst
  obtain ⟨ttl', hsecond⟩ := stored_computed s db hc'
    (ResultStore.set ⟨space, .empty⟩ k v ttl)
  simp only [hk', ResultStore.set, OrderedMap.find?_insert_self] at hsecond
  unfold sendAll sendAll sendAll
  rw [send_eq, hfirst, send_eq]
  simp only [ResultStore.set, hsecond]

/-- Calls through one store answer what they answer without it, in every order and number, exactly if
calls with one payload can be answered with each other's results. -/
theorem sendAll_uncached_iff (hK : ∀ c, K c → c.Computed)
    (hdigest : ∀ c c', K c → K c' → ∀ t t', c.payload s = .ok t → c'.payload s = .ok t' →
      Digest.ofText t = Digest.ofText t' → t = t') (space : String) :
    (∀ cs, (∀ c ∈ cs, K c) → sendAll s db (some ⟨space, .empty⟩) cs =
      cs.map fun c => (c.uncached.send s db none).1) ↔
    ∀ c c', K c → K c' → ∀ t, c.payload s = .ok t → c'.payload s = .ok t → ∀ v,
      c.read s db = .ok v → c'.replyWith s db (.ok v) = (c'.uncached.send s db none).1 := by
  constructor
  · intro h c c' hKc hKc' t ht ht' v hv
    have hpair := h [c, c'] (by simp [hKc, hKc'])
    rw [sendAll_pair space (hK c hKc) (hK c' hKc') (key_of_payload ht) (key_of_payload ht') hv]
      at hpair
    simp only [List.map_cons, List.map_nil, List.cons.injEq, and_true] at hpair
    exact hpair.2
  · intro h cs hcs
    have hrun : ∀ (cs : List Call) (known : ResultStore Fetched), known.space = space →
        Holds s db K known → (∀ c ∈ cs, K c) → sendAll s db (some known) cs =
          cs.map fun c => (c.uncached.send s db none).1 := by
      intro cs
      induction cs with
      | nil => exact fun _ _ _ _ => rfl
      | cons c cs ih =>
        intro known hspace hholds hcs
        have hKc := hcs c List.mem_cons_self
        obtain ⟨later, hlater, hlspace, hlholds⟩ := holds_stored hholds hKc (hK c hKc)
        have hreply : (c.send s db (some known)).1 = (c.uncached.send s db none).1 := by
          rw [send_eq]
          dsimp only
          rcases stored_eq hholds (hK c hKc) with hread | ⟨a, k, v, hKa, hka, hkc, hva, hv⟩
          · rw [hread, send_uncached]
          · obtain ⟨t, ht, hkt⟩ := ok_of_map hka
            obtain ⟨t', ht', hkt'⟩ := ok_of_map hkc
            have hsame := hdigest a c hKa hKc t t' ht ht' (key_eq_iff.mp (hkt.trans hkt'.symm))
            rw [hv]
            exact h a c hKa hKc t ht (hsame ▸ ht') v hva
        have hstore : (c.send s db (some known)).2 = some later := by
          rw [send_eq]
          exact hlater
        unfold sendAll
        rw [hreply, hstore, List.map_cons, ih later (hlspace.trans hspace) hlholds fun c hc =>
          hcs c (List.mem_cons_of_mem _ hc)]
    exact hrun cs ⟨space, .empty⟩ rfl (holds_empty space) hcs

/-- A call that finds the categories below each category, and loads them into a relationship. -/
def subcategories (relation : String) : Call where
  builder := ⟨Model.Shop.category, .builtIn, false, {}⟩
  one := false
  descriptor :=
    { relations := .ofList
        [(relation,
          { joinAlias := some "x", conditionType := some .replaces,
            condition := .condition (.compareField .equal "x.parent_id" "category.id") })]
      hydration := .records
      cache := some {} }

theorem computed_subcategories (relation : String) : (subcategories relation).Computed :=
  ⟨{}, rfl, rfl⟩

theorem payload_subcategories : ∃ t, (subcategories "children").payload Model.sample = .ok t ∧
    (subcategories "parent").payload Model.sample = .ok t := by
  have hsame : (subcategories "parent").keyed Model.sample =
    (subcategories "children").keyed Model.sample := by cbv
  obtain ⟨k, hk⟩ := exists_ok_of_toOption (x := (subcategories "children").keyed Model.sample)
    (by decide +kernel)
  rw [hk] at hsame
  refine ⟨_, congrArg _ hk, ?_⟩
  unfold payload
  rw [hsame]
  rfl

/-- What a call without a sort reads, computed without sorting. -/
theorem read_unsorted {c : Call} (hone : c.one = false) (hsort : c.descriptor.sort.entries = []) :
    c.read s db = readUnsorted s db ⟨c.builder, none⟩ c.descriptor := by
  unfold read planned readUnsorted
  cases hp : planOf s ⟨c.builder, none⟩ c.descriptor with
  | error e => rfl
  | ok p =>
    simp only [bind, Except.bind]
    cases ho : p.outline with
    | error e => rfl
    | ok o =>
      simp only [hone, Bool.false_eq_true, if_false, readAll_unsorted db hsort hp ho]
      rfl

theorem replyWith_plain {c : Call} (hone : c.one = false)
    (hpage : c.descriptor.countAvailableRows = false) {f : Fetched} (hread : c.read s db = .ok f)
    (v : Fetched) : c.replyWith s db (.ok v) = .all (.ok (.plain v)) := by
  obtain ⟨po, hpo, -⟩ := ok_of_bind hread
  unfold replyWith
  rw [hone, hpo]
  simp only [bind, Except.bind, hpage, Bool.false_eq_true, if_false]

/-- The first record of a result has an entry of this name. -/
def firstShows (name : String) : Fetched → Bool
  | .list (.record (.mapping es) :: _) => (Value.lookupText name es).isSome
  | _ => false

theorem read_subcategories : ∃ v w,
    (subcategories "children").read Model.sample Model.sampleRows = .ok v ∧
    (subcategories "parent").read Model.sample Model.sampleRows = .ok w ∧ v ≠ w := by
  have hread : ∀ relation, ((readUnsorted Model.sample Model.sampleRows
      ⟨(subcategories relation).builder, none⟩ (subcategories relation).descriptor).toOption.map
        (firstShows "children")) = some (relation == "children") →
      ∃ v, (subcategories relation).read Model.sample Model.sampleRows = .ok v ∧
        firstShows "children" v = (relation == "children") := by
    intro relation h
    obtain ⟨v, hv, hshows⟩ := Option.map_eq_some_iff.mp h
    exact ⟨v, (read_unsorted rfl rfl).trans (eq_ok_of_toOption hv), hshows⟩
  obtain ⟨v, hv, hshown⟩ := hread "children" (by decide +kernel)
  obtain ⟨w, hw, hhidden⟩ := hread "parent" (by decide +kernel)
  refine ⟨v, w, hv, hw, fun h => ?_⟩
  rw [h, hhidden] at hshown
  exact absurd hshown (by decide)

/-- The categories below each category are asked for as its children, then as its parent. The second
answer is the first one again. -/
theorem sendAll_subcategories :
    sendAll Model.sample Model.sampleRows (some {})
        [subcategories "children", subcategories "parent"] ≠
      [subcategories "children", subcategories "parent"].map fun c =>
        (c.uncached.send Model.sample Model.sampleRows none).1 := by
  obtain ⟨t, ht, ht'⟩ := payload_subcategories
  obtain ⟨v, w, hv, hw, hne⟩ := read_subcategories
  intro h
  rw [sendAll_pair "lens" (computed_subcategories _) (computed_subcategories _)
    (key_of_payload ht) (key_of_payload ht') hv] at h
  simp only [List.map_cons, List.map_nil, List.cons.injEq, and_true, send_uncached, hv, hw] at h
  rw [replyWith_plain rfl rfl hw, replyWith_plain rfl rfl hw] at h
  simp only [Reply.all.injEq, Except.ok.injEq, Answer.plain.injEq] at h
  exact hne h.2

theorem not_sendAll_subcategories :
    ¬ ∀ cs, (∀ c ∈ cs, c = subcategories "children" ∨ c = subcategories "parent") →
      sendAll Model.sample Model.sampleRows (some ⟨"lens", .empty⟩) cs =
        cs.map fun c => (c.uncached.send Model.sample Model.sampleRows none).1 := by
  obtain ⟨t, ht, ht'⟩ := payload_subcategories
  obtain ⟨v, w, hv, hw, hne⟩ := read_subcategories
  have hpayload : ∀ c, c = subcategories "children" ∨ c = subcategories "parent" →
      c.payload Model.sample = .ok t := by
    rintro c (rfl | rfl)
    · exact ht
    · exact ht'
  intro h
  have hsame := (sendAll_uncached_iff
    (K := fun c => c = subcategories "children" ∨ c = subcategories "parent")
    (by rintro c (rfl | rfl) <;> exact computed_subcategories _)
    (fun c c' hc hc' t t' h h' _ => Except.ok.inj (h.symm.trans
      ((hpayload c hc).trans ((hpayload c' hc').symm.trans h')))) "lens").mp h
    (subcategories "children") (subcategories "parent") (.inl rfl) (.inr rfl) t ht ht' v hv
  rw [send_uncached, hw, replyWith_plain rfl rfl hw, replyWith_plain rfl rfl hw] at hsame
  simp only [Reply.all.injEq, Except.ok.injEq, Answer.plain.injEq] at hsame
  exact hne hsame

end Call
end EntityQuery
